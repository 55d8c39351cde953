import PgClient.Util.Picture

/-!
# The memory of `parseBmp`

The row of the picture data, the row of the picture memory and the loops over the columns
round the width in three ways.

* `parseBmp_inBounds_iff` — for which files every access is in range.
* `laidOut_iff` — what a file with 24 bits is turned into, byte by byte.
-/

namespace PgClient.Bitmap

open PartialRun
open RingBuffer (blit slice)

/-! ## What is accessed -/

/-- The turns of the inner loop. -/
def columns (info : BmpInfo) (s : BmpSizes) : Int :=
  if info.biBitCount = 1 then 8 * s.width
  else if info.biBitCount = 2 then 4 * s.width
  else if info.biBitCount = 4 then 2 * s.width
  else if info.biBitCount = 8 then s.width
  else info.biWidth

/-- The indices of `pColorData` that turn `j` of row `i` reads. -/
def readIndices (info : BmpInfo) (s : BmpSizes) (i j : Nat) : List Nat :=
  if info.biBitCount = 1 then [i * s.lWidth.toNat + j / 8]
  else if info.biBitCount = 2 then [i * s.lWidth.toNat + j / 4]
  else if info.biBitCount = 4 then [i * s.lWidth.toNat + j / 2]
  else if info.biBitCount = 8 then [i * s.lWidth.toNat + j]
  else if info.biBitCount = 24 then
    let k := i * s.lWidth.toNat + j * 3
    [k + 2, k + 1, k]
  else
    let k := i * s.lWidth.toNat + j * 4
    [k + 2, k + 1, k]

/-- `index` in that turn; the 24- and the 32-bit branch step over the padding columns. -/
def pixelIndex (info : BmpInfo) (s : BmpSizes) (i j : Nat) : Nat :=
  if info.biBitCount < 16 then i * (columns info s).toNat + j
  else i * (info.biWidth.toNat + (s.width - info.biWidth).toNat) + j

/-- The six bytes that are printed, those that the loops read, and those of `pBmpRGBData`
that they write. -/
structure InBounds (info : BmpInfo) (s : BmpSizes) : Prop where
  printed : ∀ k < 6, ((k : Nat) : Int) < info.biHeight * s.lWidth
  reads : ∀ i < info.biHeight.toNat, ∀ j < (columns info s).toNat, ∀ k ∈ readIndices info s i j,
    ((k : Nat) : Int) < info.biHeight * s.lWidth
  writes : ∀ i < info.biHeight.toNat, ∀ j < (columns info s).toNat, ∀ c < 3,
    ((4 * pixelIndex info s i j + c : Nat) : Int) < s.width * info.biHeight * 4

/-! ## The condition -/

/-- There are six bytes to print, and if there are rows, they have 24 or 32 bits, or 8 bits
and a width whose rounding to 16 is that to 4. -/
structure StaysInside (info : BmpInfo) (s : BmpSizes) : Prop where
  printed : 6 ≤ info.biHeight * s.lWidth
  rows : info.biHeight < 0 ∨ info.biBitCount = 24 ∨ info.biBitCount = 32 ∨
    info.biBitCount = 8 ∧ info.biWidth % 16 ∈ [0, 13, 14, 15]

/-! ## The sizes -/

theorem cInt_eq_some {x y : Int} (h : cInt x = some y) : y = x := by
  unfold cInt at h
  split_ifs at h
  exact (Option.some.inj h).symm

theorem bmpSizes_values {info : BmpInfo} {s : BmpSizes} (h : bmpSizes info = some s) :
    s.width = (info.biWidth + 15).tdiv 16 * 16 ∧
      s.lWidth = (info.biWidth * info.biBitCount + 31).tdiv 32 * 4 ∧
      s.nData = info.biHeight * s.lWidth ∧ s.size = s.width * info.biHeight * 4 + 64 := by
  unfold bmpSizes widthBytes at h
  simp only [Option.bind_eq_bind, Option.bind_eq_some_iff, Option.some.injEq] at h
  obtain ⟨rounded, hrounded, bits, hbits, lWidth, ⟨bits', hbits', rfl⟩, nData, hnData, pixels, hpixels,
    bytes, hbytes, size, hsize, rfl⟩ := h
  -- none of the ints overflows
  obtain rfl := cInt_eq_some hrounded
  obtain rfl := cInt_eq_some hbits
  obtain rfl := cInt_eq_some hbits'
  obtain rfl := cInt_eq_some hnData
  obtain rfl := cInt_eq_some hpixels
  obtain rfl := cInt_eq_some hbytes
  obtain rfl := cInt_eq_some hsize
  exact ⟨rfl, rfl, rfl, rfl⟩

theorem length_freadZeroed (n : Nat) (file : List Byte) : (freadZeroed n file).length = n := by
  rw [freadZeroed, List.length_append, List.length_take, List.length_replicate]
  omega

/-- The bit counts of a picture. -/
def BitCounts : List Nat := [1, 2, 4, 8, 24, 32]

/-- The division rounds towards zero. -/
theorem tdiv_nonpos_of_lt {x n : Int} (hn : 0 < n) (h : x < n) : x.tdiv n ≤ 0 := by
  rcases le_or_gt 0 x with hx | hx
  · rw [Int.tdiv_eq_zero_of_lt hx h]
  · obtain ⟨y, rfl⟩ : ∃ y, x = -y := ⟨-x, (Int.neg_neg x).symm⟩
    rw [Int.neg_tdiv]
    have := Int.tdiv_nonneg (show 0 ≤ y by omega) hn.le
    omega

/-- With six bytes of data the height and the width have the same sign. -/
theorem signs_of_printed {info : BmpInfo} {s : BmpSizes} (hs : bmpSizes info = some s)
    (hsix : 6 ≤ info.biHeight * s.lWidth) :
    (0 < info.biHeight ∧ 0 < info.biWidth) ∨ (info.biHeight < 0 ∧ s.width ≤ 0) := by
  obtain ⟨hwidth, hlWidth, -, -⟩ := bmpSizes_values hs
  have hcount : (0 : Int) ≤ info.biBitCount := Int.natCast_nonneg _
  rcases lt_trichotomy info.biHeight 0 with hneg | hzero | hpos
  -- a negative height needs rows of negative length, and so a negative width
  · have hrow : s.lWidth < 0 := by
      by_contra hge
      have := Int.mul_nonpos_of_nonpos_of_nonneg hneg.le (not_lt.mp hge)
      omega
    have hless : info.biWidth < 0 := by
      by_contra hge
      have hbits := Int.mul_nonneg (not_lt.mp hge) hcount
      have := Int.tdiv_nonneg (show 0 ≤ info.biWidth * info.biBitCount + 31 by omega)
        (show (0 : Int) ≤ 32 by omega)
      omega
    have := @tdiv_nonpos_of_lt (info.biWidth + 15) 16 (by omega) (by omega)
    exact .inr ⟨hneg, by omega⟩
  · rw [hzero, Int.zero_mul] at hsix
    omega
  · have hrow : 0 < s.lWidth := by
      by_contra hle
      have := Int.mul_nonpos_of_nonneg_of_nonpos hpos.le (not_lt.mp hle)
      omega
    refine .inl ⟨hpos, ?_⟩
    by_contra hle
    have hbits := Int.mul_nonpos_of_nonpos_of_nonneg (not_lt.mp hle) hcount
    have := @tdiv_nonpos_of_lt (info.biWidth * info.biBitCount + 31) 32 (by omega) (by omega)
    omega

/-- A picture with rows is one of natural numbers. -/
theorem info_of_pos {info : BmpInfo} {s : BmpSizes} (hs : bmpSizes info = some s)
    (hheight : 0 < info.biHeight) (hwidth : 0 < info.biWidth) :
    ∃ w h : Nat, 0 < w ∧ 0 < h ∧ info = ⟨w, h, info.biBitCount⟩ ∧ s = sizesOf w h info.biBitCount := by
  obtain ⟨biWidth, biHeight, count⟩ := info
  obtain ⟨w, rfl⟩ := Int.eq_ofNat_of_zero_le (show 0 ≤ biWidth from hwidth.le)
  obtain ⟨h, rfl⟩ := Int.eq_ofNat_of_zero_le (show 0 ≤ biHeight from hheight.le)
  exact ⟨w, h, Int.ofNat_lt.mp hwidth, Int.ofNat_lt.mp hheight, rfl,
    (bmpSizes_eq_some_iff.mp hs).2.2.2.2⟩

/-! ## The accesses of a picture with rows -/

section Rows

variable {w h c : Nat}

/-- The accesses in natural numbers. -/
theorem inBounds_iff :
    InBounds ⟨w, h, c⟩ (sizesOf w h c) ↔
      6 ≤ h * rowBytes w c ∧
        (∀ i < h, ∀ j < (columns ⟨w, h, c⟩ (sizesOf w h c)).toNat,
          ∀ k ∈ readIndices ⟨w, h, c⟩ (sizesOf w h c) i j, k < h * rowBytes w c) ∧
        ∀ i < h, ∀ j < (columns ⟨w, h, c⟩ (sizesOf w h c)).toNat, ∀ n < 3,
          4 * pixelIndex ⟨w, h, c⟩ (sizesOf w h c) i j + n < paddedWidth w * h * 4 := by
  constructor
  · rintro ⟨hprinted, hreads, hwrites⟩
    -- the debug line prints the first six bytes
    have hfive : ((5 : Nat) : Int) < ((h * rowBytes w c : Nat) : Int) := hprinted 5 (by omega)
    exact ⟨by omega, fun i hi j hj k hk => Int.ofNat_lt.mp (hreads i hi j hj k hk),
      fun i hi j hj n hn => Int.ofNat_lt.mp (hwrites i hi j hj n hn)⟩
  · rintro ⟨hsix, hreads, hwrites⟩
    refine ⟨fun k hk => ?_, fun i hi j hj k hk => Int.ofNat_lt.mpr (hreads i hi j hj k hk),
      fun i hi j hj n hn => Int.ofNat_lt.mpr (hwrites i hi j hj n hn)⟩
    show ((k : Nat) : Int) < ((h * rowBytes w c : Nat) : Int)
    omega

/-- With 1, 2 and 4 bits the last pixel is behind the picture memory. -/
theorem not_inBounds_packed (hcount : c = 1 ∨ c = 2 ∨ c = 4) (hw : 0 < w) (hh : 0 < h) :
    ¬InBounds ⟨w, h, c⟩ (sizesOf w h c) := by
  intro hin
  obtain ⟨-, -, hwrites⟩ := inBounds_iff.mp hin
  have hpad := le_paddedWidth w
  obtain ⟨k, hk, hcolumns⟩ : ∃ k : Nat, 2 ≤ k ∧
      columns ⟨w, h, c⟩ (sizesOf w h c) = (k * paddedWidth w : Nat) := by
    rcases hcount with rfl | rfl | rfl
    · exact ⟨8, by omega, rfl⟩
    · exact ⟨4, by omega, rfl⟩
    · exact ⟨2, by omega, rfl⟩
  have hcols : 0 < k * paddedWidth w := Nat.mul_pos (by omega) (by omega)
  -- the last turn writes pixel `k * paddedWidth w * h - 1` of `paddedWidth w * h`
  have hlast := hwrites (h - 1) (by omega) (k * paddedWidth w - 1)
    (by rw [hcolumns, Int.toNat_natCast]; omega) 2 (by omega)
  have hindex : pixelIndex ⟨w, h, c⟩ (sizesOf w h c) (h - 1) (k * paddedWidth w - 1) =
      k * (paddedWidth w * h) - 1 := by
    have hrows := last_row hh (m := k * paddedWidth w)
    rw [Nat.mul_left_comm h, Nat.mul_comm h] at hrows
    rw [pixelIndex, if_pos (by show c < 16; omega), hcolumns, Int.toNat_natCast]
    omega
  have harea : 0 < paddedWidth w * h := Nat.mul_pos (by omega) hh
  have htwice := Nat.mul_le_mul_right (paddedWidth w * h) hk
  rw [hindex] at hlast
  omega

/-- With 8 bits the last pixel of a row is in it if the paddings agree. -/
theorem inBounds_8 (hw : 0 < w) (hh : 0 < h) :
    InBounds ⟨w, h, 8⟩ (sizesOf w h 8) ↔
      6 ≤ h * rowBytes w 8 ∧ paddedWidth w ≤ rowBytes w 8 := by
  have hcols : (columns ⟨w, h, 8⟩ (sizesOf w h 8)).toNat = paddedWidth w := rfl
  have hindex : ∀ i j, pixelIndex ⟨w, h, 8⟩ (sizesOf w h 8) i j = i * paddedWidth w + j :=
    fun _ _ => rfl
  have hread : ∀ i j, readIndices ⟨w, h, 8⟩ (sizesOf w h 8) i j = [i * rowBytes w 8 + j] :=
    fun _ _ => rfl
  simp only [inBounds_iff, hcols, hindex, hread, List.mem_singleton, forall_eq]
  constructor
  · rintro ⟨hsix, hreads, -⟩
    -- the last pixel of the last row
    have hpad := le_paddedWidth w
    have hlast := hreads (h - 1) (by omega) (paddedWidth w - 1) (by omega)
    have hrow := last_row hh (m := rowBytes w 8)
    exact ⟨hsix, by omega⟩
  · rintro ⟨hsix, hpad⟩
    refine ⟨hsix, fun i hi j hj => row_lt hi (by omega), ?_⟩
    intro i hi j hj n hn
    have hlt := row_lt hi hj
    rw [Nat.mul_comm (paddedWidth w)]
    omega

/-- With 24 and 32 bits only the columns of the picture are gone over. -/
theorem inBounds_trueColour (hcount : c = 24 ∨ c = 32) (hsix : 6 ≤ h * rowBytes w c) :
    InBounds ⟨w, h, c⟩ (sizesOf w h c) := by
  have hpad := le_paddedWidth w
  have hcols : (columns ⟨w, h, c⟩ (sizesOf w h c)).toNat = w := by
    rcases hcount with rfl | rfl <;> rfl
  have hindex : ∀ i j, pixelIndex ⟨w, h, c⟩ (sizesOf w h c) i j = i * paddedWidth w + j := by
    intro i j
    have hskip : (w : Int).toNat + ((paddedWidth w : Int) - w).toNat = paddedWidth w := by omega
    rw [pixelIndex, if_neg (by show ¬c < 16; omega)]
    exact congrArg (fun m => i * m + j) hskip
  refine inBounds_iff.mpr ⟨hsix, fun i hi j hj k hk => ?_, fun i hi j hj n hn => ?_⟩
  · rw [hcols] at hj
    -- the bytes of a pixel are inside its row
    obtain ⟨y, rfl, hy⟩ : ∃ y, k = i * rowBytes w c + y ∧ y < rowBytes w c := by
      rcases hcount with rfl | rfl
      · have hrow : w * 3 ≤ rowBytes w 24 := by unfold rowBytes; omega
        have hmem : k ∈ [i * rowBytes w 24 + j * 3 + 2, i * rowBytes w 24 + j * 3 + 1,
          i * rowBytes w 24 + j * 3] := hk
        simp only [List.mem_cons, List.not_mem_nil, or_false] at hmem
        exact ⟨k - i * rowBytes w 24, by omega, by omega⟩
      · have hrow : w * 4 ≤ rowBytes w 32 := by unfold rowBytes; omega
        have hmem : k ∈ [i * rowBytes w 32 + j * 4 + 2, i * rowBytes w 32 + j * 4 + 1,
          i * rowBytes w 32 + j * 4] := hk
        simp only [List.mem_cons, List.not_mem_nil, or_false] at hmem
        exact ⟨k - i * rowBytes w 32, by omega, by omega⟩
    exact row_lt hi hy
  · rw [hcols] at hj
    have hlt := row_lt hi (show j < paddedWidth w by omega)
    rw [hindex, Nat.mul_comm (paddedWidth w)]
    omega

end Rows

/-! ## Where all accesses are in range -/

theorem staysInside_iff {w h c : Nat} (hh : 0 < h) :
    StaysInside ⟨w, h, c⟩ (sizesOf w h c) ↔
      6 ≤ h * rowBytes w c ∧ (c = 24 ∨ c = 32 ∨ c = 8 ∧ paddedWidth w ≤ rowBytes w 8) := by
  -- the last column is read behind the row unless the width is close to 16
  have hmod : (w : Int) % 16 ∈ ([0, 13, 14, 15] : List Int) ↔ paddedWidth w ≤ rowBytes w 8 := by
    rw [paddedWidth_le_iff]
    simp only [List.mem_cons, List.not_mem_nil, or_false]
    omega
  constructor
  · rintro ⟨hsix, hneg | hrows⟩
    · have : ((h : Nat) : Int) < 0 := hneg
      omega
    · exact ⟨Int.ofNat_le.mp hsix, hrows.imp_right (Or.imp_right (And.imp_right hmod.mp))⟩
  · rintro ⟨hsix, hrows⟩
    exact ⟨Int.ofNat_le.mpr hsix, .inr (hrows.imp_right (Or.imp_right (And.imp_right hmod.mpr)))⟩

/-- The cases of the condition: no rows, or a picture of natural numbers. -/
theorem iff_staysInside {info : BmpInfo} {s : BmpSizes} {P : Prop} (hs : bmpSizes info = some s)
    (hprinted : P → 6 ≤ info.biHeight * s.lWidth)
    (hnone : 6 ≤ info.biHeight * s.lWidth → info.biHeight < 0 → s.width ≤ 0 → P)
    (hrows : ∀ w h : Nat, 0 < w → 0 < h → info = ⟨w, h, info.biBitCount⟩ →
      s = sizesOf w h info.biBitCount → 6 ≤ h * rowBytes w info.biBitCount →
        (P ↔ info.biBitCount = 24 ∨ info.biBitCount = 32 ∨
          info.biBitCount = 8 ∧ paddedWidth w ≤ rowBytes w 8)) :
    P ↔ StaysInside info s := by
  by_cases hsix : 6 ≤ info.biHeight * s.lWidth
  swap
  · exact ⟨fun hP => absurd (hprinted hP) hsix, fun hstays => absurd hstays.printed hsix⟩
  -- without rows the loops do nothing
  rcases signs_of_printed hs hsix with ⟨hheight, hwidth⟩ | ⟨hheight, hwidth⟩
  · obtain ⟨w, h, hw, hh, hinfo, rfl⟩ := info_of_pos hs hheight hwidth
    rw [hinfo] at hsix
    have hsix' : 6 ≤ h * rowBytes w info.biBitCount := Int.ofNat_le.mp hsix
    rw [hrows w h hw hh hinfo rfl hsix']
    conv_rhs => rw [hinfo]
    rw [staysInside_iff hh]
    exact (and_iff_right hsix').symm
  · exact ⟨fun _ => ⟨hsix, .inl hheight⟩, fun _ => hnone hsix hheight hwidth⟩

theorem bitCounts_cases {c : Nat} (hcount : c ∈ BitCounts) :
    (c = 1 ∨ c = 2 ∨ c = 4) ∨ c = 8 ∨ c = 24 ∨ c = 32 := by
  simp only [BitCounts, List.mem_cons, List.not_mem_nil, or_false] at hcount
  omega

/-- The accesses. -/
theorem inBounds_iff_staysInside {info : BmpInfo} {s : BmpSizes}
    (hcount : info.biBitCount ∈ BitCounts) (hs : bmpSizes info = some s) :
    InBounds info s ↔ StaysInside info s := by
  refine iff_staysInside hs ?_ ?_ ?_
  · intro hin
    have := hin.printed 5 (by omega)
    omega
  -- without rows only the six bytes are accessed
  · intro hsix hheight _
    have hno : info.biHeight.toNat = 0 := Int.toNat_of_nonpos hheight.le
    refine ⟨fun k hk => by omega, fun i hi => ?_, fun i hi => ?_⟩ <;>
    · rw [hno] at hi
      omega
  · obtain ⟨biWidth, biHeight, c⟩ := info
    intro w h hw hh hinfo hsizes hsix
    dsimp only at hcount hinfo hsizes hsix ⊢
    rw [hinfo, hsizes]
    rcases bitCounts_cases hcount with hpacked | rfl | htrue
    · exact ⟨fun hin => absurd hin (not_inBounds_packed hpacked hw hh), by omega⟩
    · rw [inBounds_8 hw hh]
      omega
    · exact ⟨fun _ => by omega, fun _ => inBounds_trueColour htrue hsix⟩

theorem bmpPixels_noRows {info : BmpInfo} {s : BmpSizes} (hheight : info.biHeight ≤ 0)
    (pRgb data out : List Byte) : bmpPixels info s pRgb data out = some out := by
  have hno : info.biHeight.toNat = 0 := Int.toNat_of_nonpos hheight
  unfold bmpPixels
  dsimp only
  rw [hno]
  split_ifs <;> rfl

/-- The loops of a picture with rows. -/
theorem bmpPixels_isSome_iff {w h c : Nat} (hw : 0 < w) (hh : 0 < h) (hcount : c ∈ BitCounts)
    {pRgb data out : List Byte} (hpalette : pRgb.length = paletteSize ⟨w, h, c⟩)
    (hdata : data.length = h * rowBytes w c) (hout : out.length = 4 * (paddedWidth w * h) + 64) :
    (∃ out', bmpPixels ⟨w, h, c⟩ (sizesOf w h c) pRgb data out = some out') ↔
      c = 24 ∨ c = 32 ∨ c = 8 ∧ paddedWidth w ≤ rowBytes w 8 := by
  have hpos : 0 < paddedWidth w := hw.trans_le (le_paddedWidth w)
  -- under 8 bits the last row is left, 8 bits need the padding, the others never do
  rcases bitCounts_cases hcount with hpacked | rfl | rfl | rfl
  · rw [bmpPixels_packed hpacked hh hpos hout]
    exact ⟨nofun, by omega⟩
  · constructor
    · rintro ⟨out', hrun⟩
      exact .inr (.inr ⟨rfl, bmpPixels_8_pad hh hpos hdata hrun⟩)
    · intro hrows
      obtain ⟨out', hrun, -⟩ := pixel8_runs hpalette hdata hout (by omega)
      exact ⟨out', hrun⟩
  · refine ⟨fun _ => .inl rfl, ?_⟩
    intro _
    obtain ⟨out', hrun, -⟩ := @trueColour_runs w h 24 3 rfl (by omega) data out hdata hout _
      fun i _ j _ hk => pixel24_eq hk
    exact ⟨out', bmpPixels_24.trans hrun⟩
  · refine ⟨fun _ => .inr (.inl rfl), ?_⟩
    intro _
    obtain ⟨out', hrun, -⟩ := @trueColour_runs w h 32 4 rfl (by omega) data out hdata hout _
      fun i _ j _ hk => pixel32_eq hk
    exact ⟨out', bmpPixels_32.trans hrun⟩

/-- The run of the model, in which an access out of range is undefined. -/
theorem parseBmp_iff_staysInside {file : List Byte} {s : BmpSizes} (hlen : 54 ≤ file.length)
    (hsign : le16 file = 0x4d42) (hcount : (bmpInfo file).biBitCount ∈ BitCounts)
    (hs : bmpSizes (bmpInfo file) = some s) :
    (∃ out, parseBmp (some file) = some (0, out)) ↔ StaysInside (bmpInfo file) s := by
  obtain ⟨-, -, hnData, hsize⟩ := bmpSizes_values hs
  have hfile : (∃ out, parseBmp (some file) = some (0, out)) ↔ 6 ≤ s.nData ∧ 64 ≤ s.size ∧
      ∃ out, bmpPixels (bmpInfo file) s (freadZeroed (paletteSize (bmpInfo file)) (file.drop 54))
        (freadZeroed s.nData.toNat (file.drop (54 + paletteSize (bmpInfo file))))
        (bmpRgbHead s (bmpInfo file).biHeight) = some out := by
    simp only [parseBmp_file_iff hlen hsign, hs, Option.some.injEq, exists_eq_left',
      exists_and_left]
  rw [hfile]
  generalize file.drop (54 + paletteSize (bmpInfo file)) = data
  have hpalette := length_freadZeroed (paletteSize (bmpInfo file)) (file.drop 54)
  generalize freadZeroed (paletteSize (bmpInfo file)) (file.drop 54) = pRgb at *
  generalize bmpInfo file = info at *
  refine iff_staysInside hs ?_ ?_ ?_
  · rintro ⟨hsix, -, -⟩
    omega
  -- no row is written for a negative height
  · intro hsix hheight hwidth
    have hpixels := Int.mul_nonneg_of_nonpos_of_nonpos hwidth hheight.le
    exact ⟨by omega, by omega, _, bmpPixels_noRows hheight.le _ _ _⟩
  · obtain ⟨biWidth, biHeight, c⟩ := info
    intro w h hw hh hinfo hsizes hsix
    dsimp only at hcount hinfo hsizes hsix ⊢
    obtain ⟨rfl, rfl, -⟩ := BmpInfo.mk.inj hinfo
    rw [hsizes]
    have hlen : (freadZeroed (sizesOf w h c).nData.toNat data).length = h * rowBytes w c := by
      rw [length_freadZeroed]
      exact Int.toNat_natCast _
    rw [bmpPixels_isSome_iff hw hh hcount hpalette hlen (length_bmpRgbHead w h c)]
    have hsize : 64 ≤ 4 * (paddedWidth w * h) + 64 := by omega
    exact ⟨fun hall => hall.2.2,
      fun hrows => ⟨Int.ofNat_le.mpr hsix, Int.ofNat_le.mpr hsize, hrows⟩⟩

/-- **The files that are parsed inside the memory**: every access is in range, and so the
run is defined, if and only if the condition on the height, the width and the bit count
holds. -/
theorem parseBmp_inBounds_iff {file : List Byte} {s : BmpSizes} (hlen : 54 ≤ file.length)
    (hsign : le16 file = 0x4d42) (hcount : (bmpInfo file).biBitCount ∈ BitCounts)
    (hs : bmpSizes (bmpInfo file) = some s) :
    (InBounds (bmpInfo file) s ↔ StaysInside (bmpInfo file) s) ∧
      ((∃ out, parseBmp (some file) = some (0, out)) ↔ StaysInside (bmpInfo file) s) :=
  ⟨inBounds_iff_staysInside hcount hs, parseBmp_iff_staysInside hlen hsign hcount hs⟩

/-- The headers of a picture with no palette and no data in the file. -/
def headers (width height count : Nat) : List Byte :=
  (Bmp.mk 0 width height count 0 0 0 0 0 [] []).bytes

/-- Two pixels with 24 bits stay inside, and so the run is defined. -/
theorem parseBmp_inBounds_iff_two :
    InBounds (bmpInfo (headers 2 1 24)) (sizesOf 2 1 24) ∧
      ∃ out, parseBmp (some (headers 2 1 24)) = some (0, out) := by
  have hstays : StaysInside (bmpInfo (headers 2 1 24)) (sizesOf 2 1 24) :=
    ⟨by decide, .inr (.inl rfl)⟩
  have hiff := @parseBmp_inBounds_iff (headers 2 1 24) (sizesOf 2 1 24) (by decide) (by decide)
    (by decide) rfl
  exact ⟨hiff.1.mpr hstays, hiff.2.mpr hstays⟩

/-- Two rows of 16 pixels with one bit: 256 pixels are written into the memory of 32. -/
theorem oneBit_not_inBounds : ¬∀ (file : List Byte) (s : BmpSizes), 54 ≤ file.length →
    le16 file = 0x4d42 → (bmpInfo file).biBitCount ∈ BitCounts →
    bmpSizes (bmpInfo file) = some s → InBounds (bmpInfo file) s := by
  intro hall
  have hinfo : bmpInfo (headers 16 2 1) = ⟨(16 : Nat), (2 : Nat), 1⟩ := rfl
  have hin := hall (headers 16 2 1) (sizesOf 16 2 1) (by decide) (by decide) (by decide) rfl
  rw [hinfo] at hin
  exact not_inBounds_packed (.inl rfl) (by omega) (by omega) hin

/-! ## The memory of a picture with 24 bits -/

/-- What such a file is to be turned into: the bytes of the pixels, and zeros. -/
structure LaidOut (file : List Byte) (w h : Nat) (out : List Byte) : Prop where
  size : out.length = 64 + 4 * (paddedWidth w * h)
  height : (le16 (out.drop 24)).toNat = h
  width : (le16 (out.drop 26)).toNat = paddedWidth w
  pixels : ∀ i < h, ∀ j < w, ∀ c < 3, out.getD (64 + 4 * (i * paddedWidth w + j) + c) 0 =
    (file.drop 54).getD (i * rowBytes w 24 + 3 * j + c) 0
  fourth : ∀ x < paddedWidth w * h, out.getD (64 + 4 * x + 3) 0 = 0
  padding : ∀ i < h, ∀ j < paddedWidth w, w ≤ j → ∀ c < 4,
    out.getD (64 + 4 * (i * paddedWidth w + j) + c) 0 = 0

theorem pixel24_length {lWidth : Nat} {data : List Byte} :
    ∀ i j rgb, pixel24 lWidth data i j = some rgb → rgb.length = 3 := by
  intro i j rgb h
  simp only [pixel24, Option.bind_eq_bind, Option.bind_eq_some_iff, Option.some.injEq] at h
  obtain ⟨_, -, _, -, _, -, rfl⟩ := h
  rfl

theorem freadZeroed_zero (file : List Byte) : freadZeroed 0 file = [] := by
  rw [freadZeroed, List.take_zero, Nat.zero_sub]
  rfl

theorem getD_freadZeroed {n k : Nat} (file : List Byte) (hk : k < n) :
    (freadZeroed n file).getD k 0 = file.getD k 0 := by
  rw [freadZeroed, List.getD_eq_getElem?_getD, List.getD_eq_getElem?_getD]
  rcases Nat.lt_or_ge k file.length with hin | hout
  · rw [List.getElem?_append_left (by rw [List.length_take]; omega), List.getElem?_take, if_pos hk]
  · have hlen : (file.take n).length = file.length := by
      rw [List.length_take]
      omega
    rw [List.getElem?_append_right (by omega), List.getElem?_replicate, if_pos (by omega),
      List.getElem?_eq_none hout]
    rfl

theorem getD_cell {out : List Byte} {x c : Nat} (hc : c < 3) :
    out.getD (64 + 4 * x + c) 0 = (cell out x).getD c 0 := by
  rw [cell, RingBuffer.slice, List.getD_eq_getElem?_getD, List.getD_eq_getElem?_getD,
    List.getElem?_take, if_pos hc, List.getElem?_drop]

theorem getD_channels {data : List Byte} {k c : Nat} (hc : c < 3) :
    (channels 24 (Bmp.bgr data k)).getD c 0 = data.getD (k + c) 0 := by
  match c, hc with
  | 0, _ => rfl
  | 1, _ => rfl
  | 2, _ => rfl

/-- The two words of the header, and the pixels before any is written. -/
theorem bmpRgbHead_words (s : BmpSizes) (height : Int) :
    le16 ((bmpRgbHead s height).drop 24) = BitVec.ofInt 16 height ∧
      le16 ((bmpRgbHead s height).drop 26) = BitVec.ofInt 16 s.width :=
  ⟨le16_le16Bytes _ _, le16_le16Bytes _ _⟩

theorem bmpRgbHead_zero (s : BmpSizes) (height : Int) {p : Nat} (hp : 64 ≤ p) :
    (bmpRgbHead s height).getD p 0 = 0 := by
  rw [bmpRgbHead, List.getD_eq_getElem?_getD, List.getElem?_append_right (by exact hp),
    List.getElem?_replicate]
  split_ifs <;> rfl

/-- The 24-bit branch lays the picture out. -/
theorem laidOut_of_run {file : List Byte} {w h : Nat} (hh : h < 65536) (hw : paddedWidth w < 65536)
    {out : List Byte}
    (hrun : bmpPixels ⟨w, h, 24⟩ (sizesOf w h 24) []
      (freadZeroed (h * rowBytes w 24) (file.drop 54)) (bmpRgbHead (sizesOf w h 24) h) = some out) :
    LaidOut file w h out := by
  have hpad := le_paddedWidth w
  have hstride : w + (paddedWidth w - w) = paddedWidth w := Nat.add_sub_cancel' hpad
  have hdata := length_freadZeroed (h * rowBytes w 24) (file.drop 54)
  obtain ⟨out', hrun', hcells⟩ := @trueColour_runs w h 24 3 rfl (by omega) _ _ hdata
    (length_bmpRgbHead w h 24) _ fun i _ j _ hk => pixel24_eq hk
  rw [bmpPixels_24, hrun'] at hrun
  obtain rfl := Option.some.inj hrun
  -- what is in no pixel is as it was before the loops
  have hframe := fun p => @bmpRows_frame h w (paddedWidth w - w) _ _ pixel24_length _ hrun' p
  rw [hstride] at hframe
  have hkept : ∀ p, (∀ i < h, ∀ j < w,
      p < 64 + 4 * (i * paddedWidth w + j) ∨ 64 + 4 * (i * paddedWidth w + j) + 3 ≤ p) →
      out'.getD p 0 = (bmpRgbHead (sizesOf w h 24) h).getD p 0 := by
    intro p hp
    rw [List.getD_eq_getElem?_getD, List.getD_eq_getElem?_getD, (hframe p hp).2]
  have hhead : ∀ n < 63, le16 (out'.drop n) = le16 ((bmpRgbHead (sizesOf w h 24) h).drop n) := by
    intro n hn
    simp only [le16, List.getD_eq_getElem?_getD, List.getElem?_drop]
    rw [(hframe (n + 1) fun i _ j _ => by omega).2, (hframe (n + 0) fun i _ j _ => by omega).2]
  obtain ⟨hheight, hwidth⟩ := bmpRgbHead_words (sizesOf w h 24) h
  refine ⟨?_, ?_, ?_, fun i hi j hj c hc => ?_, fun x hx => ?_, fun i hi j hj hout c hc => ?_⟩
  · rw [(hframe 0 fun i _ j _ => by omega).1, length_bmpRgbHead, Nat.add_comm]
  -- both numbers fit the 16 bits that are written of them
  · rw [hhead 24 (by omega), hheight, BitVec.ofInt_natCast, toNat_ofNat_of_lt hh]
  · rw [hhead 26 (by omega), hwidth]
    show (BitVec.ofInt 16 (paddedWidth w : Nat)).toNat = _
    rw [BitVec.ofInt_natCast, toNat_ofNat_of_lt hw]
  · have hrow : w * 3 ≤ rowBytes w 24 := by
      unfold rowBytes
      omega
    -- the index is inside the row, so it is one of the data that was read
    have hread : i * rowBytes w 24 + (3 * j + c) < h * rowBytes w 24 := row_lt hi (by omega)
    rw [getD_cell hc, hcells i hi j hj, getD_channels hc, Nat.mul_comm j, Nat.add_assoc,
      getD_freadZeroed _ hread]
  · rw [hkept _ fun i _ j _ => by omega]
    exact bmpRgbHead_zero _ _ (by omega)
  · rw [hkept _ fun i' hi' j' hj' => ?_]
    · exact bmpRgbHead_zero _ _ (by omega)
    · -- a column of the picture is not one of the padding
      have hne : i * paddedWidth w + j ≠ i' * paddedWidth w + j' := by
        intro heq
        have hmod := (@row_div_mod _ i j hj).2
        rw [heq, (@row_div_mod _ i' j' (by omega)).2] at hmod
        omega
      omega

/-- **The files with 24 bits that are laid out**: the size of the memory is that of an `int`,
and there are six bytes of data to print. -/
theorem laidOut_iff {file : List Byte} {w h : Nat} (hlen : 54 ≤ file.length)
    (hsign : le16 file = 0x4d42) (hinfo : bmpInfo file = ⟨w, h, 24⟩) (hh : h < 65536)
    (hw : paddedWidth w < 65536) :
    (∃ s out, bmpSizes (bmpInfo file) = some s ∧ s.size = 64 + 4 * (paddedWidth w * h) ∧
        parseBmp (some file) = some (0, out) ∧ LaidOut file w h out) ↔
      64 + 4 * (paddedWidth w * h) < 2 ^ 31 ∧ 6 ≤ h * rowBytes w 24 := by
  have hpad := le_paddedWidth w
  have hpalette : paletteSize ⟨w, h, 24⟩ = 0 := rfl
  have hnData : (sizesOf w h 24).nData.toNat = h * rowBytes w 24 := Int.toNat_natCast _
  rw [hinfo]
  constructor
  -- the run is defined only where the sizes and the six bytes are
  · rintro ⟨s, out, hs, -, hparse, -⟩
    obtain ⟨-, -, -, hsize, rfl⟩ := bmpSizes_eq_some_iff.mp hs
    obtain ⟨s', hs', hsix, -⟩ := (parseBmp_file_iff hlen hsign).mp hparse
    rw [hinfo, hs] at hs'
    cases hs'
    exact ⟨by omega, Int.ofNat_le.mp hsix⟩
  · rintro ⟨hsize, hsix⟩
    -- the data is smaller than the picture memory, so its size fits too
    have hdata : h * rowBytes w 24 ≤ 4 * (paddedWidth w * h) := by
      calc h * rowBytes w 24
          ≤ h * (4 * paddedWidth w) :=
            Nat.mul_le_mul_left h ((rowBytes_le (by omega)).trans (Nat.mul_le_mul_left 4 hpad))
        _ = 4 * (paddedWidth w * h) := by rw [Nat.mul_left_comm, Nat.mul_comm h]
    have hs : bmpSizes ⟨w, h, 24⟩ = some (sizesOf w h 24) :=
      bmpSizes_eq_some_iff.mpr ⟨by omega, by omega, by omega, by omega, rfl⟩
    obtain ⟨out, hrun⟩ : ∃ out, bmpPixels ⟨w, h, 24⟩ (sizesOf w h 24) []
        (freadZeroed (h * rowBytes w 24) (file.drop 54)) (bmpRgbHead (sizesOf w h 24) h) =
          some out := by
      obtain ⟨out, hrun, -⟩ := @trueColour_runs w h 24 3 rfl (by omega) _ _
        (length_freadZeroed (h * rowBytes w 24) (file.drop 54)) (length_bmpRgbHead w h 24) _
        fun i _ j _ hk => pixel24_eq hk
      exact ⟨out, bmpPixels_24.trans hrun⟩
    have hsize' : 64 ≤ 4 * (paddedWidth w * h) + 64 := by omega
    refine ⟨sizesOf w h 24, out, hs, ?_, ?_, laidOut_of_run hh hw hrun⟩
    · show ((4 * (paddedWidth w * h) + 64 : Nat) : Int) = _
      push_cast
      omega
    · refine (parseBmp_file_iff hlen hsign).mpr ⟨_, by rw [hinfo]; exact hs,
        Int.ofNat_le.mpr hsix, Int.ofNat_le.mpr hsize', ?_⟩
      rw [hinfo, hpalette, hnData, freadZeroed_zero, Nat.add_zero]
      exact hrun

/-- A blue and a red pixel. -/
def blueRed : List Byte :=
  (Bmp.mk 0 2 1 24 0 0 0 0 0 [] [255, 0, 0, 0, 0, 255, 0, 0]).bytes

/-- They are laid out in a memory of 128 bytes. -/
theorem laidOut_iff_two :
    ∃ s out, bmpSizes (bmpInfo blueRed) = some s ∧
      s.size = 64 + 4 * ((paddedWidth 2 : Nat) * (1 : Nat)) ∧
      parseBmp (some blueRed) = some (0, out) ∧ LaidOut blueRed 2 1 out :=
  (laidOut_iff (by decide) (by decide) rfl (by decide) (by decide)).mpr (by decide)

/-- One pixel has four bytes of data, and six are printed; 16384 columns and 32768 rows need
a memory of more than `2 ^ 31` bytes. -/
theorem headers_not_laidOut :
    (¬∃ out, parseBmp (some (headers 1 1 24)) = some (0, out) ∧ LaidOut (headers 1 1 24) 1 1 out) ∧
      ¬∃ out, parseBmp (some (headers 16384 32768 24)) = some (0, out) ∧
        LaidOut (headers 16384 32768 24) 16384 32768 out := by
  have hsmall : parseBmp (some (headers 1 1 24)) = none := by decide +kernel
  have hlarge : parseBmp (some (headers 16384 32768 24)) = none := by decide +kernel
  constructor
  · rintro ⟨out, hparse, -⟩
    exact absurd (hsmall.symm.trans hparse) nofun
  · rintro ⟨out, hparse, -⟩
    exact absurd (hlarge.symm.trans hparse) nofun

end PgClient.Bitmap
