import Mathlib.Data.Finset.Card
import Mathlib.Data.Finset.Prod
import PgClient.Util.Bitmap

/-!
# Pictures in BMP files

What `parseBmp` makes of the files that store one picture, with every bit count of the
standard layout.

* `bmpSizes_eq_some_iff` — when the sizes fit.
* `parseBmp_eq_some_iff` — which files are parsed.
* `parseBmp_writes`, `parseBmp_packed`, `parseBmp_8_pad` — what they give, and which are not.
* `trueColour_stores`, `withPalette_stores` — the picture as a file.
* `samePixels_iff` — for which pictures all files give the same pixels.
-/

namespace PgClient.Bitmap

/-! ## Pictures and files -/

structure Rgb where
  red : Byte
  green : Byte
  blue : Byte
  deriving DecidableEq

/-- A picture whose size the header can tell; row 0 is the first one of the file. -/
structure Picture where
  width : Nat
  height : Nat
  pixel : Nat → Nat → Rgb
  width_lt : width < 2 ^ 31
  height_lt : height < 2 ^ 31

/-- A BMP file. -/
structure Bmp where
  bfSize : BitVec 32
  biWidth : Nat
  biHeight : Nat
  biBitCount : Nat
  biSizeImage : BitVec 32
  biXPelsPerMeter : BitVec 32
  biYPelsPerMeter : BitVec 32
  biClrUsed : BitVec 32
  biClrImportant : BitVec 32
  palette : List Byte
  data : List Byte

namespace Bmp

/-- `BITMAPFILEHEADER`. -/
def fileHeader (b : Bmp) : List Byte :=
  le16Bytes 0x4d42 ++ le32Bytes b.bfSize ++ le16Bytes 0 ++ le16Bytes 0 ++
    le32Bytes (BitVec.ofNat 32 (54 + b.palette.length))

/-- `BITMAPINFOHEADER`. -/
def infoHeader (b : Bmp) : List Byte :=
  le32Bytes 40 ++ le32Bytes (BitVec.ofNat 32 b.biWidth) ++
    le32Bytes (BitVec.ofNat 32 b.biHeight) ++ le16Bytes 1 ++
    le16Bytes (BitVec.ofNat 16 b.biBitCount) ++ le32Bytes 0 ++ le32Bytes b.biSizeImage ++
    le32Bytes b.biXPelsPerMeter ++ le32Bytes b.biYPelsPerMeter ++ le32Bytes b.biClrUsed ++
    le32Bytes b.biClrImportant

/-- The headers, the palette, and the rows. -/
def bytes (b : Bmp) : List Byte := b.fileHeader ++ b.infoHeader ++ b.palette ++ b.data

/-- A row is padded to a multiple of four bytes. -/
def stride (b : Bmp) : Nat := (b.biWidth * b.biBitCount + 31) / 32 * 4

/-- The palette index of a pixel; the first pixel of a byte has its high bits. -/
def index (b : Bmp) (i j : Nat) : Nat :=
  (b.data.getD (i * b.stride + j * b.biBitCount / 8) 0).toNat /
    2 ^ (8 - b.biBitCount - j * b.biBitCount % 8) % 2 ^ b.biBitCount

/-- Blue, green and red, as a palette entry and a pixel have them. -/
def bgr (bytes : List Byte) (k : Nat) : Rgb :=
  ⟨bytes.getD (k + 2) 0, bytes.getD (k + 1) 0, bytes.getD k 0⟩

/-- The pixel that the file has. -/
def pixel (b : Bmp) (i j : Nat) : Rgb :=
  if b.biBitCount ≤ 8 then bgr b.palette (4 * b.index i j)
  else bgr b.data (i * b.stride + j * (b.biBitCount / 8))

/-- The file has the standard layout, and the picture. -/
structure Stores (b : Bmp) (pic : Picture) : Prop where
  bitCount : b.biBitCount ∈ [1, 2, 4, 8, 24, 32]
  width : b.biWidth = pic.width
  height : b.biHeight = pic.height
  clrUsed : b.biClrUsed = 0 ∨ 4 * b.biClrUsed.toNat = b.palette.length
  palette : b.palette.length = if b.biBitCount ≤ 8 then 4 * 2 ^ b.biBitCount else 0
  data : b.data.length = b.biHeight * b.stride
  pixels : ∀ i < pic.height, ∀ j < pic.width, b.pixel i j = pic.pixel i j

end Bmp

/-- The width of a row of the picture memory. -/
def paddedWidth (width : Nat) : Nat := (width + 15) / 16 * 16

/-- Every file with the picture is parsed, and gives the same pixels. -/
def SamePixels (pic : Picture) : Prop :=
  ∃ rgb : Nat → Nat → List Byte, ∀ b : Bmp, b.Stores pic →
    ∃ out, parseBmp (some b.bytes) = some (0, out) ∧
      ∀ i < pic.height, ∀ j < pic.width, cell out (i * paddedWidth pic.width + j) = rgb i j

/-- The colours of the picture. -/
def Picture.colours (pic : Picture) : Finset Rgb :=
  (Finset.range pic.height ×ˢ Finset.range pic.width).image fun x => pic.pixel x.1 x.2

/-- The sizes that `parseBmp` computes for 32 bits are in the range of an `int`. -/
def Picture.Fits (pic : Picture) : Prop :=
  32 * pic.width + 31 < 2 ^ 31 ∧ 4 * (paddedWidth pic.width * pic.height) + 64 < 2 ^ 31

/-! ## The headers -/

namespace Bmp

variable {b : Bmp} {pic : Picture}

theorem length_fileHeader (b : Bmp) : b.fileHeader.length = 14 := rfl

theorem length_infoHeader (b : Bmp) : b.infoHeader.length = 40 := rfl

theorem length_bytes (b : Bmp) : b.bytes.length = 54 + b.palette.length + b.data.length := by
  simp only [bytes, List.length_append, length_fileHeader, length_infoHeader]

theorem drop_bytes (b : Bmp) : b.bytes.drop 54 = b.palette ++ b.data := by
  rw [bytes, List.append_assoc]
  exact List.drop_left' (by rw [List.length_append, length_fileHeader, length_infoHeader])

theorem drop_bytes_data (b : Bmp) : b.bytes.drop (54 + b.palette.length) = b.data := by
  rw [← List.drop_drop, drop_bytes, List.drop_left]

/-- The size and the bit count in the information header. -/
theorem drop_bytes_info (b : Bmp) : ∃ t, b.bytes.drop 18 =
    le32Bytes (BitVec.ofNat 32 b.biWidth) ++ (le32Bytes (BitVec.ofNat 32 b.biHeight) ++
      (le16Bytes 1 ++ (le16Bytes (BitVec.ofNat 16 b.biBitCount) ++ t))) := by
  have hfile : b.bytes.drop 14 = b.infoHeader ++ (b.palette ++ b.data) := by
    rw [bytes, List.append_assoc, List.append_assoc]
    exact List.drop_left' b.length_fileHeader
  rw [show 18 = 14 + 4 from rfl, ← List.drop_drop, hfile]
  simp only [infoHeader, List.append_assoc]
  exact ⟨_, rfl⟩

theorem le32_append (x : BitVec 32) (bs : List Byte) : le32 (le32Bytes x ++ bs) = x :=
  (show le32 (le32Bytes x ++ bs) = le32 (le32Bytes x) from rfl).trans (le32_le32Bytes x)

theorem bmpInfo_bytes (hwidth : b.biWidth < 2 ^ 31) (hheight : b.biHeight < 2 ^ 31)
    (hcount : b.biBitCount < 2 ^ 16) :
    bmpInfo b.bytes = ⟨b.biWidth, b.biHeight, b.biBitCount⟩ := by
  obtain ⟨t, ht⟩ := b.drop_bytes_info
  have hh : b.bytes.drop 22 = (b.bytes.drop 18).drop 4 := by rw [List.drop_drop]
  have hc : b.bytes.drop 28 = (b.bytes.drop 18).drop 10 := by rw [List.drop_drop]
  rw [ht] at hh hc
  -- each field is at its place of the header
  have hcount' : le16 (b.bytes.drop 28) = BitVec.ofNat 16 b.biBitCount := by
    rw [hc]
    exact le16_le16Bytes _ t
  have hheight' : le32 (b.bytes.drop 22) = BitVec.ofNat 32 b.biHeight := by
    rw [hh]
    exact le32_append _ _
  rw [bmpInfo, ht, le32_append, hheight', hcount', toInt_ofNat_of_lt hwidth,
    toInt_ofNat_of_lt hheight, toNat_ofNat_of_lt hcount]

end Bmp

/-! ## The sizes -/

theorem cInt_bind {α : Type} {n : Nat} {f : Int → Option α} {a : α} :
    (cInt n).bind f = some a ↔ n < 2 ^ 31 ∧ f n = some a := by
  unfold cInt
  by_cases h : n < 2 ^ 31
  · rw [if_pos ⟨by omega, by omega⟩, Option.bind_some]
    exact ⟨fun hf => ⟨h, hf⟩, fun hf => hf.2⟩
  · rw [if_neg (by omega)]
    exact ⟨nofun, fun hf => absurd hf.1 h⟩

/-- The bytes of a row with `count` bits a pixel. -/
def rowBytes (width count : Nat) : Nat := (width * count + 31) / 32 * 4

/-- The sizes are computed if none of them is too large for an `int`. -/
theorem bmpSizes_eq_some_iff {w h c : Nat} {s : BmpSizes} :
    bmpSizes ⟨w, h, c⟩ = some s ↔
      w + 15 < 2 ^ 31 ∧ w * c + 31 < 2 ^ 31 ∧ h * rowBytes w c < 2 ^ 31 ∧
        4 * (paddedWidth w * h) + 64 < 2 ^ 31 ∧
        s = ⟨paddedWidth w, rowBytes w c, (h * rowBytes w c : Nat),
          (4 * (paddedWidth w * h) + 64 : Nat)⟩ := by
  -- the sums and products are those of natural numbers
  have h15 : (w : Int) + 15 = ((w + 15 : Nat) : Int) := rfl
  have h31 : ((w * c : Nat) : Int) + 31 = ((w * c + 31 : Nat) : Int) := rfl
  have hmul : ∀ n k : Nat, (n : Int) * k = ((n * k : Nat) : Int) := fun _ _ => rfl
  have h4 : ∀ n : Nat, (n : Int) * 4 = ((n * 4 : Nat) : Int) := fun _ => rfl
  have h64 : ∀ n : Nat, (n : Int) + 64 = ((n + 64 : Nat) : Int) := fun _ => rfl
  have hpad : ((w + 15 : Nat) : Int).tdiv 16 * 16 = (paddedWidth w : Nat) := by
    rw [Int.tdiv_eq_ediv_of_nonneg (by omega)]
    unfold paddedWidth
    omega
  have hrow : ((w * c + 31 : Nat) : Int).tdiv 32 * 4 = (rowBytes w c : Nat) := by
    rw [Int.tdiv_eq_ediv_of_nonneg (by omega)]
    unfold rowBytes
    omega
  unfold bmpSizes widthBytes
  simp only [Option.bind_eq_bind, Option.bind_assoc, Option.bind_some, h15, h31, hmul, h4, h64,
    cInt_bind, hpad, hrow, Option.some.injEq]
  rw [Nat.mul_comm 4]
  constructor
  · rintro ⟨hw, -, hbits, hdata, -, -, hsize, rfl⟩
    exact ⟨hw, hbits, hdata, hsize, rfl⟩
  · rintro ⟨hw, hbits, hdata, hsize, rfl⟩
    exact ⟨hw, by omega, hbits, hdata, by omega, by omega, hsize, rfl⟩

/-- The sizes, where they fit. -/
def sizesOf (w h c : Nat) : BmpSizes :=
  ⟨paddedWidth w, rowBytes w c, (h * rowBytes w c : Nat), (4 * (paddedWidth w * h) + 64 : Nat)⟩

theorem le_paddedWidth (w : Nat) : w ≤ paddedWidth w := by
  unfold paddedWidth
  omega

theorem rowBytes_le {w c : Nat} (hc : c ≤ 32) : rowBytes w c ≤ 4 * w := by
  have hmul : w * c ≤ w * 32 := Nat.mul_le_mul_left w hc
  unfold rowBytes
  omega

/-- The 32-bit file has the largest sizes. -/
theorem Picture.Fits.bmpSizes {pic : Picture} (h : pic.Fits) {c : Nat} (hc : c ≤ 32) :
    bmpSizes ⟨pic.width, pic.height, c⟩ = some (sizesOf pic.width pic.height c) := by
  obtain ⟨hw, hsize⟩ := h
  have hmul : pic.width * c ≤ pic.width * 32 := Nat.mul_le_mul_left _ hc
  have hdata : pic.height * rowBytes pic.width c ≤ 4 * (paddedWidth pic.width * pic.height) := by
    calc pic.height * rowBytes pic.width c
        ≤ pic.height * (4 * paddedWidth pic.width) :=
          Nat.mul_le_mul_left _ ((rowBytes_le hc).trans (Nat.mul_le_mul_left 4 (le_paddedWidth _)))
      _ = 4 * (paddedWidth pic.width * pic.height) := by
          rw [Nat.mul_left_comm, Nat.mul_comm pic.height]
  exact bmpSizes_eq_some_iff.mpr ⟨by omega, by omega, by omega, hsize, rfl⟩

/-! ## Parsing a file -/

/-- The bytes of the palette in memory. -/
def paletteSize (info : BmpInfo) : Nat :=
  4 * if info.biBitCount < 16 then 2 ^ info.biBitCount else 0

/-- A file with the sign and both headers. -/
theorem parseBmp_file_iff {file out : List Byte} (hlen : 54 ≤ file.length)
    (hsign : le16 file = 0x4d42) :
    parseBmp (some file) = some (0, out) ↔
      ∃ s, bmpSizes (bmpInfo file) = some s ∧ 6 ≤ s.nData ∧ 64 ≤ s.size ∧
        bmpPixels (bmpInfo file) s (freadZeroed (paletteSize (bmpInfo file)) (file.drop 54))
          (freadZeroed s.nData.toNat (file.drop (54 + paletteSize (bmpInfo file))))
          (bmpRgbHead s (bmpInfo file).biHeight) = some out := by
  unfold parseBmp
  dsimp only
  rw [if_neg (by omega), if_neg (not_not_intro hsign), if_neg (by omega)]
  simp only [Option.bind_eq_bind, Option.bind_eq_some_iff]
  refine exists_congr fun s => and_congr_right fun _ => ?_
  -- what is printed and the head of the memory need six bytes and 64
  by_cases hsmall : s.nData < 6 ∨ s.size < 64
  · rw [if_pos hsmall]
    exact ⟨nofun, fun hall => by omega⟩
  · rw [if_neg hsmall]
    constructor
    · intro hrun
      obtain ⟨out', hpixels, hout⟩ := Option.bind_eq_some_iff.mp hrun
      cases hout
      exact ⟨by omega, by omega, hpixels⟩
    · rintro ⟨-, -, hpixels⟩
      exact Option.bind_eq_some_iff.mpr ⟨out, hpixels, rfl⟩

theorem freadZeroed_append (xs ys : List Byte) : freadZeroed xs.length (xs ++ ys) = xs := by
  rw [freadZeroed, List.take_left, List.length_append, Nat.sub_eq_zero_of_le (by omega),
    List.replicate_zero, List.append_nil]

theorem length_bmpRgbHead (w h c : Nat) :
    (bmpRgbHead (sizesOf w h c) h).length = 4 * (paddedWidth w * h) + 64 := by
  have hsize : (sizesOf w h c).size.toNat = 4 * (paddedWidth w * h) + 64 := Int.toNat_natCast _
  rw [bmpRgbHead, hsize]
  simp only [List.length_append, List.length_replicate, le16Bytes, List.length_cons, List.length_nil]
  omega

section Parse

variable {b : Bmp} {pic : Picture} {out : List Byte}

theorem Bmp.Stores.stride_eq (hs : b.Stores pic) : b.stride = rowBytes pic.width b.biBitCount := by
  rw [Bmp.stride, hs.width, rowBytes]

theorem Bmp.Stores.data_eq (hs : b.Stores pic) :
    b.data.length = pic.height * rowBytes pic.width b.biBitCount := by
  rw [hs.data, hs.height, hs.stride_eq]

theorem Bmp.Stores.bitCount_le (hs : b.Stores pic) : b.biBitCount ≤ 32 ∧ 0 < b.biBitCount := by
  have hmem := hs.bitCount
  simp only [List.mem_cons, List.not_mem_nil, or_false] at hmem
  omega

theorem Bmp.Stores.nPlantNum (hs : b.Stores pic) :
    4 * (if b.biBitCount < 16 then 2 ^ b.biBitCount else 0) = b.palette.length := by
  have hmem := hs.bitCount
  rw [hs.palette]
  simp only [List.mem_cons, List.not_mem_nil, or_false] at hmem
  by_cases h8 : b.biBitCount ≤ 8
  · rw [if_pos h8, if_pos (by omega)]
  · rw [if_neg h8, if_neg (by omega)]

/-- A file that is parsed: its sizes fit, and the loops are defined. -/
theorem parseBmp_eq_some_iff (hs : b.Stores pic) :
    parseBmp (some b.bytes) = some (0, out) ↔
      bmpSizes ⟨pic.width, pic.height, b.biBitCount⟩ =
          some (sizesOf pic.width pic.height b.biBitCount) ∧
        6 ≤ pic.height * rowBytes pic.width b.biBitCount ∧
        bmpPixels ⟨pic.width, pic.height, b.biBitCount⟩ (sizesOf pic.width pic.height b.biBitCount)
            b.palette b.data (bmpRgbHead (sizesOf pic.width pic.height b.biBitCount) pic.height) =
          some out := by
  have hcount := hs.bitCount_le
  have hwidth := pic.width_lt
  have hheight := pic.height_lt
  have hlen := b.length_bytes
  -- the header says the picture's own sizes
  have hinfo : bmpInfo b.bytes = ⟨pic.width, pic.height, b.biBitCount⟩ := by
    rw [Bmp.bmpInfo_bytes (hs.width ▸ hwidth) (hs.height ▸ hheight) (by omega), hs.width, hs.height]
  have hsign : le16 b.bytes = 0x4d42 := by
    simp only [Bmp.bytes, Bmp.fileHeader, List.append_assoc]
    exact le16_le16Bytes _ _
  -- nothing comes behind the data
  have hfread := freadZeroed_append b.data []
  rw [List.append_nil, hs.data_eq] at hfread
  have hpalette : paletteSize ⟨pic.width, pic.height, b.biBitCount⟩ = b.palette.length := hs.nPlantNum
  have hnData : (sizesOf pic.width pic.height b.biBitCount).nData.toNat =
      pic.height * rowBytes pic.width b.biBitCount := Int.toNat_natCast _
  rw [parseBmp_file_iff (by omega) hsign, hinfo, hpalette, Bmp.drop_bytes, Bmp.drop_bytes_data,
    freadZeroed_append]
  constructor
  · rintro ⟨s, hsizes, hsix, -, hpixels⟩
    obtain rfl : s = sizesOf pic.width pic.height b.biBitCount :=
      (bmpSizes_eq_some_iff.mp hsizes).2.2.2.2
    rw [hnData, hfread] at hpixels
    exact ⟨hsizes, Int.ofNat_le.mp hsix, hpixels⟩
  · rintro ⟨hsizes, hsix, hpixels⟩
    rw [← hfread, ← hnData] at hpixels
    have hsize : 64 ≤ 4 * (paddedWidth pic.width * pic.height) + 64 := by omega
    exact ⟨_, hsizes, Int.ofNat_le.mpr hsix, Int.ofNat_le.mpr hsize, hpixels⟩

/-! ## The pixels of a file -/

theorem getElem?_eq_some_getD {bytes : List Byte} {k : Nat} (h : k < bytes.length) :
    bytes[k]? = some (bytes.getD k 0) := by
  rw [List.getD_eq_getElem?_getD, List.getElem?_eq_getElem h]
  rfl

/-- What the branch of the bit count writes of a pixel. -/
def channels (count : Nat) (p : Rgb) : List Byte :=
  if count = 24 then [p.blue, p.green, p.red] else [p.red, p.green, p.blue]

theorem pixel24_eq {lWidth i j : Nat} {data : List Byte} (h : i * lWidth + j * 3 + 2 < data.length) :
    pixel24 lWidth data i j = some (channels 24 (Bmp.bgr data (i * lWidth + j * 3))) := by
  simp only [pixel24, getElem?_eq_some_getD (show i * lWidth + j * 3 < data.length by omega),
    getElem?_eq_some_getD (show i * lWidth + j * 3 + 1 < data.length by omega),
    getElem?_eq_some_getD h]
  rfl

theorem pixel32_eq {lWidth i j : Nat} {data : List Byte} (h : i * lWidth + j * 4 + 2 < data.length) :
    pixel32 lWidth data i j = some (channels 32 (Bmp.bgr data (i * lWidth + j * 4))) := by
  simp only [pixel32, getElem?_eq_some_getD (show i * lWidth + j * 4 < data.length by omega),
    getElem?_eq_some_getD (show i * lWidth + j * 4 + 1 < data.length by omega),
    getElem?_eq_some_getD h]
  rfl

/-- Every byte is the index of one of the 256 entries. -/
theorem pixel8_eq {lWidth i j : Nat} {pRgb data : List Byte} (hpalette : pRgb.length = 1024)
    (h : i * lWidth + j < data.length) :
    pixel8 lWidth pRgb data i j =
      some (channels 8 (Bmp.bgr pRgb (4 * (data.getD (i * lWidth + j) 0).toNat))) := by
  have hbyte := (data.getD (i * lWidth + j) 0).isLt
  simp only [pixel8, getElem?_eq_some_getD h, Option.bind_eq_bind, Option.bind_some,
    getElem?_eq_some_getD (show 4 * (data.getD (i * lWidth + j) 0).toNat < pRgb.length by omega),
    getElem?_eq_some_getD (show 4 * (data.getD (i * lWidth + j) 0).toNat + 1 < pRgb.length by omega),
    getElem?_eq_some_getD (show 4 * (data.getD (i * lWidth + j) 0).toNat + 2 < pRgb.length by omega)]
  rfl

theorem channels_length (count : Nat) (p : Rgb) : (channels count p).length = 3 := by
  unfold channels
  split_ifs <;> rfl

/-- The loops of the 24- and the 32-bit branch, which leave the padding columns out. -/
theorem trueColour_runs {w h c k : Nat} (hcount : c = 8 * k) (hk : 3 ≤ k) {data out : List Byte}
    (hdata : data.length = h * rowBytes w c) (hout : out.length = 4 * (paddedWidth w * h) + 64)
    {pixel : Nat → Nat → Option (List Byte)}
    (hpixel : ∀ i < h, ∀ j < w, i * rowBytes w c + j * k + 2 < data.length →
      pixel i j = some (channels c (Bmp.bgr data (i * rowBytes w c + j * k)))) :
    ∃ out', bmpRows h (some w) (paddedWidth w - w) pixel out = some out' ∧
      ∀ i < h, ∀ j < w, cell out' (i * paddedWidth w + j) =
        channels c (Bmp.bgr data (i * rowBytes w c + j * k)) := by
  have hpad := le_paddedWidth w
  -- the pixels of a row fit into it
  have hrow : w * k ≤ rowBytes w c := by
    rw [hcount, rowBytes, Nat.mul_left_comm]
    omega
  have hwrites : ∀ i < h, ∀ j < w,
      pixel i j = some (channels c (Bmp.bgr data (i * rowBytes w c + j * k))) ∧
        (channels c (Bmp.bgr data (i * rowBytes w c + j * k))).length = 3 := by
    intro i hi j hj
    have hlast : j * k + 2 < rowBytes w c := (row_lt hj hk).trans_le hrow
    exact ⟨hpixel i hi j hj (by rw [hdata, Nat.add_assoc]; exact row_lt hi hlast), channels_length _ _⟩
  -- the memory has the padding columns, too
  have hroom : 64 + 4 * (h * (w + (paddedWidth w - w))) ≤ out.length := by
    rw [Nat.add_sub_cancel' hpad, hout, Nat.mul_comm h]
    omega
  obtain ⟨out', hrun, hcells⟩ := bmpRows_writes hwrites hroom
  rw [Nat.add_sub_cancel' hpad] at hcells
  exact ⟨out', hrun, hcells⟩

/-- They write the pixels of the picture. -/
theorem trueColour_writes (hs : b.Stores pic) {k : Nat} (hcount : b.biBitCount = 8 * k)
    (hk : 3 ≤ k) {pixel : Nat → Nat → Option (List Byte)}
    (hpixel : ∀ i < pic.height, ∀ j < pic.width,
      i * rowBytes pic.width b.biBitCount + j * k + 2 < b.data.length →
        pixel i j = some (channels b.biBitCount
          (Bmp.bgr b.data (i * rowBytes pic.width b.biBitCount + j * k)))) :
    ∃ out, bmpRows pic.height (some pic.width) (paddedWidth pic.width - pic.width) pixel
        (bmpRgbHead (sizesOf pic.width pic.height b.biBitCount) pic.height) = some out ∧
      ∀ i < pic.height, ∀ j < pic.width,
        cell out (i * paddedWidth pic.width + j) = channels b.biBitCount (pic.pixel i j) := by
  obtain ⟨out, hrun, hcells⟩ :=
    trueColour_runs hcount hk hs.data_eq (length_bmpRgbHead _ _ _) hpixel
  refine ⟨out, hrun, ?_⟩
  intro i hi j hj
  -- the bytes of the file are the pixel of the picture
  rw [hcells i hi j hj, ← hs.pixels i hi j hj, Bmp.pixel, if_neg (by omega), hs.stride_eq, hcount,
    Nat.mul_div_cancel_left k (by omega)]

/-- The loops of the 8-bit branch, which read the padding columns, too. -/
theorem pixel8_runs {w h : Nat} {pRgb data out : List Byte} (hpalette : pRgb.length = 1024)
    (hdata : data.length = h * rowBytes w 8) (hout : out.length = 4 * (paddedWidth w * h) + 64)
    (hpad : paddedWidth w ≤ rowBytes w 8) :
    ∃ out', bmpRows h (some (paddedWidth w)) 0 (pixel8 (rowBytes w 8) pRgb data) out = some out' ∧
      ∀ i < h, ∀ j < paddedWidth w, cell out' (i * paddedWidth w + j) =
        channels 8 (Bmp.bgr pRgb (4 * (data.getD (i * rowBytes w 8 + j) 0).toNat)) :=
  @bmpRows_writes h (paddedWidth w) 0 (pixel8 (rowBytes w 8) pRgb data)
    (fun i j => channels 8 (Bmp.bgr pRgb (4 * (data.getD (i * rowBytes w 8 + j) 0).toNat))) out
    (fun i hi j hj => ⟨pixel8_eq hpalette (by rw [hdata]; exact row_lt hi (by omega)),
      channels_length _ _⟩)
    (by rw [hout, Nat.add_zero, Nat.mul_comm h]; omega)

/-- They write the pixels of the picture. -/
theorem pixel8_writes (hs : b.Stores pic) (hcount : b.biBitCount = 8)
    (hpad : paddedWidth pic.width ≤ rowBytes pic.width 8) :
    ∃ out, bmpRows pic.height (some (paddedWidth pic.width)) 0
        (pixel8 (rowBytes pic.width 8) b.palette b.data)
        (bmpRgbHead (sizesOf pic.width pic.height 8) pic.height) = some out ∧
      ∀ i < pic.height, ∀ j < pic.width,
        cell out (i * paddedWidth pic.width + j) = channels 8 (pic.pixel i j) := by
  have hpalette : b.palette.length = 1024 := by
    rw [hs.palette, hcount]
    rfl
  obtain ⟨out, hrun, hcells⟩ :=
    pixel8_runs hpalette (by rw [hs.data_eq, hcount]) (length_bmpRgbHead _ _ _) hpad
  refine ⟨out, hrun, ?_⟩
  intro i hi j hj
  have hbyte := (b.data.getD (i * rowBytes pic.width 8 + j) 0).isLt
  -- with 8 bits the byte is the index
  have hindex : b.index i j = (b.data.getD (i * rowBytes pic.width 8 + j) 0).toNat := by
    rw [Bmp.index, hs.stride_eq, hcount, Nat.mul_div_cancel j (by omega), Nat.mul_mod_left]
    omega
  rw [← hs.pixels i hi j hj, Bmp.pixel, if_pos (by omega), hindex]
  exact hcells i hi j (lt_of_lt_of_le hj (le_paddedWidth _))

theorem bmpPixels_8 {w h : Nat} {pRgb data out : List Byte} :
    bmpPixels ⟨w, h, 8⟩ (sizesOf w h 8) pRgb data out =
      bmpRows h (some (paddedWidth w)) 0 (pixel8 (rowBytes w 8) pRgb data) out := rfl

theorem bmpPixels_24 {w h : Nat} {pRgb data out : List Byte} :
    bmpPixels ⟨w, h, 24⟩ (sizesOf w h 24) pRgb data out =
      bmpRows h (some w) (paddedWidth w - w) (pixel24 (rowBytes w 24) data) out := by
  show bmpRows h (some w) ((paddedWidth w : Int) - w).toNat (pixel24 (rowBytes w 24) data) out = _
  rw [Int.toNat_sub]

theorem bmpPixels_32 {w h : Nat} {pRgb data out : List Byte} :
    bmpPixels ⟨w, h, 32⟩ (sizesOf w h 32) pRgb data out =
      bmpRows h (some w) (paddedWidth w - w) (pixel32 (rowBytes w 32) data) out := by
  show bmpRows h (some w) ((paddedWidth w : Int) - w).toNat (pixel32 (rowBytes w 32) data) out = _
  rw [Int.toNat_sub]

/-- **What a file gives** whose loops stay inside the memory. -/
theorem parseBmp_writes (hs : b.Stores pic) (hfits : pic.Fits)
    (hsix : 6 ≤ pic.height * rowBytes pic.width b.biBitCount)
    (hcount : b.biBitCount = 8 ∧ paddedWidth pic.width ≤ rowBytes pic.width 8 ∨
      b.biBitCount = 24 ∨ b.biBitCount = 32) :
    ∃ out, parseBmp (some b.bytes) = some (0, out) ∧
      ∀ i < pic.height, ∀ j < pic.width,
        cell out (i * paddedWidth pic.width + j) = channels b.biBitCount (pic.pixel i j) := by
  -- the file is parsed if its loops are
  suffices hpixels : ∃ out, bmpPixels ⟨pic.width, pic.height, b.biBitCount⟩
      (sizesOf pic.width pic.height b.biBitCount) b.palette b.data
      (bmpRgbHead (sizesOf pic.width pic.height b.biBitCount) pic.height) = some out ∧
      ∀ i < pic.height, ∀ j < pic.width,
        cell out (i * paddedWidth pic.width + j) = channels b.biBitCount (pic.pixel i j) by
    obtain ⟨out, hrun, hcells⟩ := hpixels
    exact ⟨out, (parseBmp_eq_some_iff hs).mpr ⟨hfits.bmpSizes hs.bitCount_le.1, hsix, hrun⟩, hcells⟩
  -- one branch for each depth
  rcases hcount with ⟨h8, hpad⟩ | h24 | h32
  · rw [h8, bmpPixels_8]
    exact pixel8_writes hs h8 hpad
  · rw [h24, bmpPixels_24]
    exact h24 ▸ trueColour_writes hs (k := 3) h24 (by omega) fun i hi j hj hk => by
      rw [h24] at hk ⊢
      exact pixel24_eq hk
  · rw [h32, bmpPixels_32]
    exact h32 ▸ trueColour_writes hs (k := 4) h32 (by omega) fun i hi j hj hk => by
      rw [h32] at hk ⊢
      exact pixel32_eq hk

/-! ## Files that are not parsed -/

theorem packedPixel_length {bits lWidth : Nat} {pRgb data : List Byte} :
    ∀ i j rgb, packedPixel bits lWidth pRgb data i j = some rgb → rgb.length = 3 := by
  intro i j rgb h
  simp only [packedPixel, Option.bind_eq_bind, Option.bind_eq_some_iff, Option.some.injEq] at h
  obtain ⟨_, -, _, -, _, -, rfl⟩ := h
  rfl

theorem pixel8_length {lWidth : Nat} {pRgb data : List Byte} :
    ∀ i j rgb, pixel8 lWidth pRgb data i j = some rgb → rgb.length = 3 := by
  intro i j rgb h
  simp only [pixel8, Option.bind_eq_bind, Option.bind_eq_some_iff, Option.some.injEq] at h
  obtain ⟨_, -, _, -, _, -, _, -, rfl⟩ := h
  rfl

/-- The rows of a picture that is parsed are not empty, and there is one. -/
theorem rows_pos {w h c : Nat} (hsix : 6 ≤ h * rowBytes w c) : 0 < h ∧ 0 < paddedWidth w := by
  constructor
  · by_contra hzero
    obtain rfl : h = 0 := by omega
    omega
  · by_contra hzero
    obtain rfl : w = 0 := by
      have := le_paddedWidth w
      omega
    simp [rowBytes] at hsix

/-- The loops of the 1-, 2- and 4-bit branches go over more columns than a row has, and
leave the memory. -/
theorem bmpPixels_packed {w h c : Nat} (hcount : c = 1 ∨ c = 2 ∨ c = 4) (hheight : 0 < h)
    (hwidth : 0 < paddedWidth w) {pRgb data out : List Byte}
    (hout : out.length = 4 * (paddedWidth w * h) + 64) :
    bmpPixels ⟨w, h, c⟩ (sizesOf w h c) pRgb data out = none := by
  obtain ⟨k, hk, hloop⟩ : ∃ k : Nat, 2 ≤ k ∧ bmpPixels ⟨w, h, c⟩ (sizesOf w h c) pRgb data out =
      bmpRows h (cInt (k * paddedWidth w : Nat)) 0 (packedPixel c (rowBytes w c) pRgb data) out := by
    rcases hcount with rfl | rfl | rfl
    · exact ⟨8, by omega, rfl⟩
    · exact ⟨4, by omega, rfl⟩
    · exact ⟨2, by omega, rfl⟩
  rw [hloop]
  by_cases hfit : k * paddedWidth w < 2 ^ 31
  · rw [cInt, if_pos ⟨by omega, by omega⟩]
    by_contra hrun
    obtain ⟨out', hrun⟩ := Option.ne_none_iff_exists'.mp hrun
    -- the last pixel of the last row
    have hcols : 0 < k * paddedWidth w := Nat.mul_pos (by omega) hwidth
    have hlast := (bmpRows_bounds packedPixel_length hrun (h - 1) (by omega)
      (k * paddedWidth w - 1) (by omega)).2
    have hall : (h - 1) * (k * paddedWidth w + 0) + (k * paddedWidth w - 1) =
        k * (paddedWidth w * h) - 1 := by
      have hrows := last_row hheight (m := k * paddedWidth w)
      rw [Nat.mul_left_comm h, Nat.mul_comm h] at hrows
      rw [Nat.add_zero]
      omega
    have harea : 0 < paddedWidth w * h := Nat.mul_pos hwidth hheight
    have htwice := Nat.mul_le_mul_right (paddedWidth w * h) hk
    rw [hall, hout] at hlast
    omega
  · rw [cInt, if_neg (by omega), bmpRows_none hheight]

/-- The 8-bit branch reads the padding columns of the last row, too. -/
theorem bmpPixels_8_pad {w h : Nat} (hheight : 0 < h) (hwidth : 0 < paddedWidth w)
    {pRgb data out out' : List Byte} (hdata : data.length = h * rowBytes w 8)
    (hrun : bmpPixels ⟨w, h, 8⟩ (sizesOf w h 8) pRgb data out = some out') :
    paddedWidth w ≤ rowBytes w 8 := by
  rw [bmpPixels_8] at hrun
  -- the last pixel of the last row
  have hlast := (bmpRows_bounds pixel8_length hrun (h - 1) (by omega)
    (paddedWidth w - 1) (by omega)).1
  have hread : (h - 1) * rowBytes w 8 + (paddedWidth w - 1) < data.length := by
    by_contra hge
    rw [pixel8, List.getElem?_eq_none (by omega)] at hlast
    cases hlast
  rw [hdata] at hread
  have hrow := last_row hheight (m := rowBytes w 8)
  omega

theorem parseBmp_packed (hs : b.Stores pic) (hcount : b.biBitCount = 1 ∨ b.biBitCount = 2 ∨
    b.biBitCount = 4) : parseBmp (some b.bytes) ≠ some (0, out) := by
  intro hparse
  obtain ⟨-, hsix, hrun⟩ := (parseBmp_eq_some_iff hs).mp hparse
  obtain ⟨hheight, hwidth⟩ := rows_pos hsix
  rw [bmpPixels_packed hcount hheight hwidth (length_bmpRgbHead _ _ _)] at hrun
  cases hrun

theorem parseBmp_8_pad (hs : b.Stores pic) (hcount : b.biBitCount = 8)
    (hparse : parseBmp (some b.bytes) = some (0, out)) :
    paddedWidth pic.width ≤ rowBytes pic.width 8 := by
  obtain ⟨-, hsix, hrun⟩ := (parseBmp_eq_some_iff hs).mp hparse
  obtain ⟨hheight, hwidth⟩ := rows_pos hsix
  rw [hcount] at hrun
  exact bmpPixels_8_pad hheight hwidth (by rw [hs.data_eq, hcount]) hrun

end Parse

/-! ## A picture as a file -/

/-- The bytes of an array of `n`. -/
def tabulate (n : Nat) (f : Nat → Byte) : List Byte := (List.range n).map f

theorem length_tabulate (n : Nat) (f : Nat → Byte) : (tabulate n f).length = n := by
  rw [tabulate, List.length_map, List.length_range]

theorem getD_tabulate {n k : Nat} {f : Nat → Byte} (hk : k < n) : (tabulate n f).getD k 0 = f k := by
  rw [tabulate, List.getD_eq_getElem?_getD, List.getElem?_map, List.getElem?_range hk]
  rfl

/-- The bytes of a colour in their order. -/
def component (p : Rgb) : Nat → Byte
  | 0 => p.blue
  | 1 => p.green
  | 2 => p.red
  | _ => 0

/-- Colours of `k` bytes each, from the byte `x` on. -/
theorem bgr_tabulate {n x k : Nat} {f : Nat → Byte} {p : Rgb} (hk : 3 ≤ k)
    (hf : ∀ c < k, x + c < n ∧ f (x + c) = component p c) : Bmp.bgr (tabulate n f) x = p := by
  obtain ⟨h0, hf0⟩ := hf 0 (by omega)
  obtain ⟨h1, hf1⟩ := hf 1 (by omega)
  obtain ⟨h2, hf2⟩ := hf 2 (by omega)
  rw [Nat.add_zero] at h0 hf0
  rw [Bmp.bgr, getD_tabulate h0, getD_tabulate h1, getD_tabulate h2, hf0, hf1, hf2]
  rfl

namespace Picture

variable (pic : Picture)

/-- A file of the size of the picture, with 0 in the fields that nothing depends on. -/
def toBmp (count : Nat) (palette data : List Byte) : Bmp where
  bfSize := 0
  biWidth := pic.width
  biHeight := pic.height
  biBitCount := count
  biSizeImage := 0
  biXPelsPerMeter := 0
  biYPelsPerMeter := 0
  biClrUsed := 0
  biClrImportant := 0
  palette := palette
  data := data

/-- The picture with `k` bytes a pixel. -/
def trueColour (k : Nat) : Bmp :=
  pic.toBmp (8 * k) [] (tabulate (pic.height * rowBytes pic.width (8 * k)) fun x =>
    let i := x / rowBytes pic.width (8 * k)
    let y := x % rowBytes pic.width (8 * k)
    component (pic.pixel i (y / k)) (y % k))

theorem trueColour_stores {k : Nat} (hk : k = 3 ∨ k = 4) : (pic.trueColour k).Stores pic where
  bitCount := by rcases hk with rfl | rfl <;> simp [trueColour, toBmp]
  width := rfl
  height := rfl
  clrUsed := .inl rfl
  palette := by rcases hk with rfl | rfl <;> rfl
  data := length_tabulate _ _
  pixels := by
    intro i hi j hj
    have hbits : ¬8 * k ≤ 8 := by omega
    have hrow : pic.width * k ≤ rowBytes pic.width (8 * k) := by
      rw [rowBytes, Nat.mul_left_comm]
      omega
    show (if 8 * k ≤ 8 then _ else Bmp.bgr _ (i * rowBytes pic.width (8 * k) + j * (8 * k / 8))) = _
    rw [if_neg hbits, Nat.mul_div_cancel_left k (by omega)]
    refine bgr_tabulate (k := k) (by omega) fun c hc => ?_
    -- the byte is inside its row, so row and column can be told from its place
    have hlast : j * k + c < rowBytes pic.width (8 * k) := (row_lt hj hc).trans_le hrow
    obtain ⟨hdiv, hmod⟩ := @row_div_mod _ i _ hlast
    rw [Nat.add_assoc]
    refine ⟨row_lt hi hlast, ?_⟩
    dsimp only
    rw [hdiv, hmod, (row_div_mod hc).1, (row_div_mod hc).2]

/-- A palette for the picture, and where its colours are. -/
theorem exists_palette {n : Nat} (hn : pic.colours.card ≤ n) :
    ∃ (table : Nat → Rgb) (idx : Rgb → Nat), ∀ i < pic.height, ∀ j < pic.width,
      idx (pic.pixel i j) < n ∧ table (idx (pic.pixel i j)) = pic.pixel i j := by
  -- the table is the colours in some order
  refine ⟨fun x => pic.colours.toList.getD x ⟨0, 0, 0⟩, pic.colours.toList.idxOf, ?_⟩
  intro i hi j hj
  -- every pixel is one of them
  have hmem : pic.pixel i j ∈ pic.colours.toList := by
    rw [Finset.mem_toList]
    exact Finset.mem_image.mpr ⟨(i, j), Finset.mem_product.mpr
      ⟨Finset.mem_range.mpr hi, Finset.mem_range.mpr hj⟩, rfl⟩
  have hlt := List.idxOf_lt_length_of_mem hmem
  have hlen := pic.colours.length_toList
  refine ⟨lt_of_lt_of_le hlt (by omega), ?_⟩
  dsimp only
  rw [List.getD_eq_getElem?_getD, List.getElem?_eq_getElem hlt, List.getElem_idxOf]
  rfl

/-- The picture with a palette of `2 ^ count` colours and these rows. -/
def withPalette (count : Nat) (table : Nat → Rgb) (row : Nat → Nat → Nat) : Bmp :=
  pic.toBmp count (tabulate (4 * 2 ^ count) fun x => component (table (x / 4)) (x % 4))
    (tabulate (pic.height * rowBytes pic.width count) fun x =>
      BitVec.ofNat 8 (row (x / rowBytes pic.width count) (x % rowBytes pic.width count)))

/-- The palette file stores the picture if the bits of its rows are the indices. -/
theorem withPalette_stores {count : Nat} (hcount : count = 4 ∨ count = 8) {table : Nat → Rgb}
    {idx : Rgb → Nat} {row : Nat → Nat → Nat}
    (htable : ∀ i < pic.height, ∀ j < pic.width,
      idx (pic.pixel i j) < 2 ^ count ∧ table (idx (pic.pixel i j)) = pic.pixel i j)
    (hrow : ∀ i < pic.height, ∀ j < pic.width,
      row i (j * count / 8) % 256 / 2 ^ (8 - count - j * count % 8) % 2 ^ count =
        idx (pic.pixel i j)) :
    (pic.withPalette count table row).Stores pic where
  bitCount := by rcases hcount with rfl | rfl <;> simp [withPalette, toBmp]
  width := rfl
  height := rfl
  clrUsed := .inl rfl
  palette := by
    rw [if_pos (by show count ≤ 8; omega)]
    exact length_tabulate _ _
  data := length_tabulate _ _
  pixels := by
    intro i hi j hj
    have hbyte : j * count / 8 < rowBytes pic.width count := by
      rcases hcount with rfl | rfl <;> unfold rowBytes <;> omega
    obtain ⟨hdiv, hmod⟩ := @row_div_mod _ i _ hbyte
    -- the index is read out of the byte that has its bits
    have hindex : (pic.withPalette count table row).index i j = idx (pic.pixel i j) := by
      rw [← hrow i hi j hj]
      show ((tabulate _ _).getD (i * rowBytes pic.width count + j * count / 8) 0).toNat / _ % _ = _
      rw [getD_tabulate (row_lt hi hbyte), hdiv, hmod]
      rfl
    obtain ⟨hlt, htab⟩ := htable i hi j hj
    rw [Bmp.pixel, if_pos (by show count ≤ 8; omega), hindex]
    -- the table's entry is the colour
    refine bgr_tabulate (k := 4) (by omega) fun c hc => ⟨by omega, ?_⟩
    rw [Nat.mul_comm 4, (row_div_mod hc).1, (row_div_mod hc).2, htab]

end Picture

/-! ## The same pixels -/

section Same

variable {pic : Picture}

theorem Bmp.Stores.card_colours_le {b : Bmp} (hs : b.Stores pic) (hcount : b.biBitCount ≤ 8) :
    pic.colours.card ≤ 2 ^ b.biBitCount := by
  -- every pixel is one of the palette entries
  have hsub : pic.colours ⊆ (Finset.range (2 ^ b.biBitCount)).image fun x => Bmp.bgr b.palette (4 * x) := by
    intro p hp
    obtain ⟨⟨i, j⟩, hij, rfl⟩ := Finset.mem_image.mp hp
    obtain ⟨hi, hj⟩ := Finset.mem_product.mp hij
    rw [← hs.pixels i (Finset.mem_range.mp hi) j (Finset.mem_range.mp hj), Bmp.pixel, if_pos hcount]
    exact Finset.mem_image.mpr ⟨b.index i j,
      Finset.mem_range.mpr (Nat.mod_lt _ (Nat.two_pow_pos _)), rfl⟩
  calc pic.colours.card ≤ _ := Finset.card_le_card hsub
    _ ≤ (Finset.range (2 ^ b.biBitCount)).card := Finset.card_image_le
    _ = 2 ^ b.biBitCount := Finset.card_range _

theorem Picture.card_colours_le (pic : Picture) : pic.colours.card ≤ pic.height * pic.width := by
  refine Finset.card_image_le.trans ?_
  rw [Finset.card_product, Finset.card_range, Finset.card_range]

/-- A 4-bit file for the picture. -/
theorem Picture.exists_stores4 (hcard : pic.colours.card ≤ 16) :
    ∃ b : Bmp, b.Stores pic ∧ b.biBitCount = 4 := by
  obtain ⟨table, idx, htable⟩ := pic.exists_palette hcard
  refine ⟨pic.withPalette 4 table fun i y =>
    16 * idx (pic.pixel i (2 * y)) + idx (pic.pixel i (2 * y + 1)) % 16,
    pic.withPalette_stores (.inl rfl) htable ?_, rfl⟩
  intro i hi j hj
  have hlt := (htable i hi j hj).1
  obtain ⟨y, rfl | rfl⟩ : ∃ y, j = 2 * y ∨ j = 2 * y + 1 := ⟨j / 2, by omega⟩
  · rw [show 2 * y * 4 / 8 = y by omega, show 8 - 4 - 2 * y * 4 % 8 = 4 by omega]
    omega
  · rw [show (2 * y + 1) * 4 / 8 = y by omega, show 8 - 4 - (2 * y + 1) * 4 % 8 = 0 by omega]
    omega

/-- An 8-bit file for the picture. -/
theorem Picture.exists_stores8 (hcard : pic.colours.card ≤ 256) :
    ∃ b : Bmp, b.Stores pic ∧ b.biBitCount = 8 := by
  obtain ⟨table, idx, htable⟩ := pic.exists_palette hcard
  refine ⟨pic.withPalette 8 table fun i y => idx (pic.pixel i y),
    pic.withPalette_stores (.inr rfl) htable ?_, rfl⟩
  intro i hi j hj
  have hlt := (htable i hi j hj).1
  rw [Nat.mul_div_cancel j (by omega), show 8 - 8 - j * 8 % 8 = 0 by omega]
  omega

theorem paddedWidth_le_iff {w : Nat} : paddedWidth w ≤ rowBytes w 8 ↔ w % 16 ∈ [0, 13, 14, 15] := by
  simp only [paddedWidth, rowBytes, List.mem_cons, List.not_mem_nil, or_false]
  omega

/-- A 24- or a 32-bit file that is parsed gives its pixels. -/
theorem cells_of_parseBmp {b : Bmp} {out : List Byte} (hs : b.Stores pic) (hfits : pic.Fits)
    (hcount : b.biBitCount = 24 ∨ b.biBitCount = 32)
    (hparse : parseBmp (some b.bytes) = some (0, out)) :
    ∀ i < pic.height, ∀ j < pic.width,
      cell out (i * paddedWidth pic.width + j) = channels b.biBitCount (pic.pixel i j) := by
  obtain ⟨-, hsix, -⟩ := (parseBmp_eq_some_iff hs).mp hparse
  obtain ⟨out', hparse', hcells⟩ := parseBmp_writes hs hfits hsix (.inr hcount)
  rw [hparse] at hparse'
  cases hparse'
  exact hcells

/-- The 32-bit file is parsed, so the sizes fit. -/
theorem SamePixels.fits (h : SamePixels pic) : pic.Fits := by
  obtain ⟨rgb, hsame⟩ := h
  have hs := pic.trueColour_stores (.inr rfl)
  obtain ⟨out, hparse, -⟩ := hsame _ hs
  obtain ⟨hsizes, -, -⟩ := (parseBmp_eq_some_iff hs).mp hparse
  obtain ⟨-, hbits, -, hsize, -⟩ := bmpSizes_eq_some_iff.mp hsizes
  exact ⟨by rw [Nat.mul_comm]; exact hbits, hsize⟩

/-- The 24- and the 32-bit file have the same pixels. -/
theorem SamePixels.grey (h : SamePixels pic) {i j : Nat} (hi : i < pic.height) (hj : j < pic.width) :
    (pic.pixel i j).red = (pic.pixel i j).blue := by
  have hfits := h.fits
  obtain ⟨rgb, hsame⟩ := h
  have hs24 := pic.trueColour_stores (.inl rfl)
  have hs32 := pic.trueColour_stores (.inr rfl)
  obtain ⟨out24, hparse24, hcells24⟩ := hsame _ hs24
  obtain ⟨out32, hparse32, hcells32⟩ := hsame _ hs32
  have h24 := cells_of_parseBmp hs24 hfits (.inl rfl) hparse24 i hi j hj
  have h32 := cells_of_parseBmp hs32 hfits (.inr rfl) hparse32 i hi j hj
  rw [hcells24 i hi j hj] at h24
  rw [hcells32 i hi j hj, h24] at h32
  exact (List.cons.inj h32).1.symm

/-- There is no 4-bit file, which would not be parsed. -/
theorem SamePixels.card_gt (h : SamePixels pic) : 16 < pic.colours.card := by
  obtain ⟨rgb, hsame⟩ := h
  by_contra hcard
  obtain ⟨b, hs, h4⟩ := Picture.exists_stores4 (not_lt.mp hcard)
  obtain ⟨out, hparse, -⟩ := hsame b hs
  exact parseBmp_packed hs (.inr (.inr h4)) hparse

/-- Where there is an 8-bit file it is parsed. -/
theorem SamePixels.padded (h : SamePixels pic) :
    256 < pic.colours.card ∨ pic.width % 16 ∈ [0, 13, 14, 15] := by
  obtain ⟨rgb, hsame⟩ := h
  by_contra hneither
  obtain ⟨hcard, hpad⟩ := not_or.mp hneither
  obtain ⟨b, hs, h8⟩ := Picture.exists_stores8 (not_lt.mp hcard)
  obtain ⟨out, hparse, -⟩ := hsame b hs
  exact hpad (paddedWidth_le_iff.mp (parseBmp_8_pad hs h8 hparse))

/-- The files that such a picture has are those whose loops stay inside the memory. -/
theorem Bmp.Stores.loops_inside {b : Bmp} (hs : b.Stores pic) (hcard : 16 < pic.colours.card)
    (hpad : 256 < pic.colours.card ∨ pic.width % 16 ∈ [0, 13, 14, 15]) :
    (b.biBitCount = 8 ∧ paddedWidth pic.width ≤ rowBytes pic.width 8 ∨
        b.biBitCount = 24 ∨ b.biBitCount = 32) ∧
      6 ≤ pic.height * rowBytes pic.width b.biBitCount := by
  have hmem := hs.bitCount
  simp only [List.mem_cons, List.not_mem_nil, or_false] at hmem
  have hbig : 8 ≤ b.biBitCount := by
    by_contra hless
    have hpow : 2 ^ b.biBitCount ≤ 2 ^ 4 := Nat.pow_le_pow_right (by omega) (by omega)
    have := hs.card_colours_le (by omega)
    omega
  constructor
  · by_cases h8 : b.biBitCount = 8
    · have hmany := hs.card_colours_le h8.le
      rw [h8] at hmany
      exact .inl ⟨h8, paddedWidth_le_iff.mpr (hpad.resolve_left (by omega))⟩
    · omega
  · -- a colour needs a pixel, and a pixel a byte
    have hrow : pic.width ≤ rowBytes pic.width b.biBitCount := by
      have hmul := Nat.mul_le_mul_left pic.width hbig
      unfold rowBytes
      omega
    have := pic.card_colours_le.trans (Nat.mul_le_mul_left pic.height hrow)
    omega

/-- **Which pictures give the same pixels from every file**: the red and the blue of every
pixel are the same, there are too many colours for 4 bits, and for 8 bits as well unless the
padding columns are in the file; and the sizes fit. -/
theorem samePixels_iff (pic : Picture) :
    SamePixels pic ↔
      pic.Fits ∧ (∀ i < pic.height, ∀ j < pic.width, (pic.pixel i j).red = (pic.pixel i j).blue) ∧
        16 < pic.colours.card ∧ (256 < pic.colours.card ∨ pic.width % 16 ∈ [0, 13, 14, 15]) := by
  constructor
  · intro h
    exact ⟨h.fits, fun i hi j hj => h.grey hi hj, h.card_gt, h.padded⟩
  · rintro ⟨hfits, hgrey, hcard, hpad⟩
    refine ⟨fun i j => channels 24 (pic.pixel i j), ?_⟩
    intro b hs
    obtain ⟨hcount, hsix⟩ := hs.loops_inside hcard hpad
    obtain ⟨out, hparse, hcells⟩ := parseBmp_writes hs hfits hsix hcount
    refine ⟨out, hparse, ?_⟩
    intro i hi j hj
    -- with red and blue the same the order does not matter
    show cell out _ = channels 24 (pic.pixel i j)
    rw [hcells i hi j hj]
    unfold channels
    rw [hgrey i hi j hj]
    split_ifs <;> rfl

end Same

/-- Two red pixels. -/
def redPicture : Picture where
  width := 2
  height := 1
  pixel _ _ := ⟨0xff, 0, 0⟩
  width_lt := by decide
  height_lt := by decide

/-- From the 32-bit file they are red, and from the 24-bit file they are blue. -/
theorem redPicture_not_same : ¬SamePixels redPicture := by
  rintro ⟨rgb, hsame⟩
  obtain ⟨out24, hparse24, hcells24⟩ := hsame _ (redPicture.trueColour_stores (.inl rfl))
  obtain ⟨out32, hparse32, hcells32⟩ := hsame _ (redPicture.trueColour_stores (.inr rfl))
  have h24 : (parseBmp (some (redPicture.trueColour 3).bytes)).map (fun r => cell r.2 0) =
      some [0, 0, 0xff] := by decide +kernel
  have h32 : (parseBmp (some (redPicture.trueColour 4).bytes)).map (fun r => cell r.2 0) =
      some [0xff, 0, 0] := by decide +kernel
  rw [hparse24, Option.map_some] at h24
  rw [hparse32, Option.map_some] at h32
  have h := (hcells24 0 (by decide) 0 (by decide)).trans (hcells32 0 (by decide) 0 (by decide)).symm
  have hcolour := (Option.some.inj h24).symm.trans (h.trans (Option.some.inj h32))
  exact absurd hcolour (by decide)

end PgClient.Bitmap
