import PgClient.Lib.PartialRun
import PgClient.Lib.RingBuffer
import PgClient.Util.Crc32

/-!
# The transfer of a picture to the FPGA

`fpgaTransPicData` of `fpgaFunc.c` hands the picture over in blocks. Nothing in its loops
changes `needBytes`.

* `transfer_inv` — what holds of a run with bytes to send.
* `reaches_call` — where the FPGA takes bytes the run asks it for the rest of the block.
* `transfersPicture_iff` — which transfers do what they are for.
-/

namespace PgClient.Fpga

open PartialRun
open RingBuffer (slice)

/-! ## The code -/

/-- `MAX_SIZE`. -/
def maxSize : Nat := 320 * 1024

/-- `SIZE_1_MB`. -/
def size1Mb : BitVec 32 := 1024 * 1024

/-- `needBytes`; the comparison is one of `unsigned int`s. -/
def needBytes (fileSize : Nat) (dataSize : BitVec 32) : Int :=
  if (dataSize * size1Mb).toNat < fileSize then fileSize else (dataSize * size1Mb).toInt

/-- Where the control is. -/
inductive Control
  | outer
  | inner
  | returned (ret : Int)
  deriving DecidableEq

/-- The variables of the loops, what the FPGA got, and what it returned. -/
structure Transfer where
  control : Control
  /-- The offset in `pNeedData`. -/
  pTemp : Nat
  onceTransmitSize : Int
  sent : List Byte
  answers : List Int

/-- `fpgaCtrlAccessBurstWrite` at an offset; no offset is given twice. -/
abbrev BurstWrite := Nat → Nat → Int

/-- The next test of a loop, with the turn that follows it; `none` when memory outside of
`pNeedData` is handed over. -/
def transferStep (burst : BurstWrite) (need : Int) (pNeedData : List Byte) (t : Transfer) :
    Option Transfer :=
  match t.control with
  | .outer =>
    if need > 0 then
      some { t with
        onceTransmitSize := if need > maxSize then maxSize else need
        control := .inner }
    else some { t with control := .returned 0 }
  | .inner =>
    if t.onceTransmitSize > 0 then
      if t.pTemp + t.onceTransmitSize.toNat ≤ pNeedData.length then
        let sndBytes := burst t.pTemp t.onceTransmitSize.toNat
        if sndBytes < 0 then
          some { t with answers := t.answers ++ [sndBytes], control := .returned (-2) }
        else
          some { t with
            onceTransmitSize := t.onceTransmitSize - sndBytes
            pTemp := t.pTemp + sndBytes.toNat
            sent := t.sent ++ slice pNeedData t.pTemp sndBytes.toNat
            answers := t.answers ++ [sndBytes] }
      else none
    else some { t with control := .outer }
  | .returned _ => some t

/-- The copy of the file in the zeroed block; half of the address space is not given. -/
def needData (file : List Byte) (dataSize : BitVec 32) : Option (List Byte) :=
  let need := needBytes file.length dataSize
  if need < 0 then none else some (file ++ List.replicate (need.toNat - file.length) 0)

/-- The first `n` steps of the loops. -/
def transferRun (burst : BurstWrite) (need : Int) (pNeedData : List Byte) (n : Nat) :
    Option Transfer :=
  runAll (fun _ => transferStep burst need pNeedData) (List.range n) ⟨.outer, 0, 0, [], []⟩

/-- `fpgaTransPicData` of the content of a file. -/
def fpgaTransPicData (burst : BurstWrite) (file : List Byte) (dataSize : BitVec 32) (n : Nat) :
    Option Transfer := do
  let pNeedData ← needData file dataSize
  transferRun burst (needBytes file.length dataSize) pNeedData n

/-! ## What it is for -/

/-- `fpgaTransPicData` returns: 0 with the file and the zeros behind it sent if no call
failed, and else -2 after the first one that did. -/
def TransfersPicture (burst : BurstWrite) (file : List Byte) (dataSize : BitVec 32) : Prop :=
  ∃ n t, fpgaTransPicData burst file dataSize n = some t ∧
    ((∀ a ∈ t.answers, 0 ≤ a) →
      t.control = .returned 0 ∧ (t.sent.length : Int) = needBytes file.length dataSize ∧
        ∃ k, t.sent = file ++ List.replicate k 0) ∧
    (¬(∀ a ∈ t.answers, 0 ≤ a) →
      t.control = .returned (-2) ∧
        ∃ before a, t.answers = before ++ [a] ∧ a < 0 ∧ ∀ b ∈ before, 0 ≤ b)

/-- A call sends from 1 to all the bytes it is given, or fails. -/
def Sends (burst : BurstWrite) : Prop :=
  ∀ p n, 0 < n → burst p n < 0 ∨ 1 ≤ burst p n ∧ burst p n ≤ n

/-- The FPGA, asked for the rest of a block of `once` bytes each time, takes the bytes up to
this offset. -/
inductive TakesUpTo (burst : BurstWrite) (once : Nat) : Nat → Prop
  | start : TakesUpTo burst once 0
  | call {p : Nat} : TakesUpTo burst once p → 0 ≤ burst p (once - p % once) →
      TakesUpTo burst once (p + (burst p (once - p % once)).toNat)

/-- It fails before this many bytes. -/
def FailsBefore (burst : BurstWrite) (once bound : Nat) : Prop :=
  ∃ p < bound, TakesUpTo burst once p ∧ burst p (once - p % once) < 0

/-! ## Blocks -/

section Blocks

variable {need once p r : Nat}

/-- The rest of a block. -/
theorem rest_eq (hr : 0 < r) (hle : r ≤ once) (hend : (p + r) % once = 0) : r = once - p % once := by
  have hlt := Nat.mod_lt p (show 0 < once by omega)
  have hsum : (p % once + r) % once = 0 := by rw [Nat.mod_add_mod, hend]
  -- the end of the rest is the next multiple of the block size
  rcases Nat.lt_or_ge (p % once + r) once with hin | hout
  · rw [Nat.mod_eq_of_lt hin] at hsum
    omega
  · rw [Nat.mod_eq_sub_mod hout, Nat.mod_eq_of_lt (by omega)] at hsum
    omega

/-- What is left of a block ends at a block's end. -/
theorem rest_end (hp : p < need / once * once) :
    p + (once - p % once) ≤ need / once * once ∧ (p + (once - p % once)) % once = 0 := by
  have honce : 0 < once := Nat.pos_of_ne_zero fun h => by
    rw [h, Nat.mul_zero] at hp
    omega
  have hlt := Nat.mod_lt p honce
  have hdiv := Nat.div_add_mod p once
  have hend : p + (once - p % once) = (p / once + 1) * once := by
    rw [Nat.succ_mul, Nat.mul_comm]
    omega
  rw [hend]
  exact ⟨Nat.mul_le_mul_right once (Nat.div_lt_of_lt_mul (by rw [Nat.mul_comm]; exact hp)),
    Nat.mul_mod_left _ _⟩

/-- A block inside the buffer is one of the whole blocks. -/
theorem lt_of_end (hr : 0 < r) (hend : (p + r) % once = 0) (hle : p + r ≤ need) :
    p < need / once * once := by
  obtain ⟨k, hk⟩ := Nat.dvd_of_mod_eq_zero hend
  rcases Nat.eq_zero_or_pos once with rfl | honce
  · omega
  have hblocks : k ≤ need / once := (Nat.le_div_iff_mul_le honce).mpr (by rw [Nat.mul_comm]; omega)
  have := Nat.mul_le_mul_right once hblocks
  rw [Nat.mul_comm k] at this
  omega

end Blocks

/-! ## A transfer with bytes to send -/

section Run

variable {burst : BurstWrite} {need : Nat} {pNeedData : List Byte}

/-- The size of the blocks. -/
def blockSize (need : Nat) : Nat := min need maxSize

/-- The bytes of the blocks that are inside the buffer. -/
def wholeBlocks (need : Nat) : Nat := need / blockSize need * blockSize need

/-- A block is not empty. -/
theorem blockSize_pos (hneed : 0 < need) : 0 < blockSize need := by
  unfold blockSize maxSize
  omega

/-- The control comes back to the outer loop at the end of a block only, and the function
returns only when a call fails. -/
def TransferInv (burst : BurstWrite) (need : Nat) (t : Transfer) : Prop :=
  match t.control with
  | .outer => TakesUpTo burst (blockSize need) t.pTemp ∧ t.pTemp % blockSize need = 0
  | .inner => TakesUpTo burst (blockSize need) t.pTemp ∧ ∃ r ≤ blockSize need,
      t.onceTransmitSize = (r : Int) ∧ (t.pTemp + r) % blockSize need = 0
  | .returned ret => ret = -2 ∧
      FailsBefore burst (blockSize need) (wholeBlocks need)

/-- A step keeps the invariant. -/
theorem transferStep_inv (hsends : Sends burst) (hneed : 0 < need)
    (hmem : pNeedData.length = need) {t t' : Transfer} (ht : TransferInv burst need t)
    (hstep : transferStep burst need pNeedData t = some t') : TransferInv burst need t' := by
  obtain ⟨control, pTemp, once, sent, answers⟩ := t
  cases control with
  | outer =>
    obtain ⟨htakes, hmod⟩ := ht
    simp only [transferStep] at hstep
    rw [if_pos (by omega)] at hstep
    cases hstep
    -- a block is begun: its size is the smaller of the two
    refine ⟨htakes, blockSize need, le_rfl, ?_, ?_⟩
    · unfold blockSize
      dsimp only
      split_ifs <;> omega
    · dsimp only at hmod ⊢
      rw [Nat.add_mod_right, hmod]
  | inner =>
    obtain ⟨htakes, r, hle, rfl, hend⟩ := ht
    dsimp only at htakes hend
    simp only [transferStep] at hstep
    split_ifs at hstep with hpos hinside hfail
    · -- the call fails
      cases hstep
      have hr : 0 < r := by omega
      rw [Int.toNat_natCast] at hinside hfail
      rw [rest_eq hr hle hend] at hfail
      exact ⟨rfl, pTemp, lt_of_end hr hend (by omega), htakes, hfail⟩
    · -- it takes some bytes
      cases hstep
      have hr : 0 < r := by omega
      rw [Int.toNat_natCast] at hfail ⊢
      have hsent := (hsends pTemp r hr).resolve_left hfail
      -- the end of the block stays where it is
      have hrest := rest_eq hr hle hend
      refine ⟨?_, r - (burst pTemp r).toNat, by omega, ?_, ?_⟩
      · have hcall := htakes.call (by rw [← hrest]; omega)
        rwa [← hrest] at hcall
      · dsimp only
        omega
      · dsimp only
        rw [show pTemp + (burst pTemp r).toNat + (r - (burst pTemp r).toNat) = pTemp + r by omega]
        exact hend
    · -- the block is through
      cases hstep
      obtain rfl : r = 0 := by omega
      exact ⟨htakes, hend⟩
  | returned ret =>
    cases hstep
    exact ht

/-- The invariant holds after every number of steps. -/
theorem transfer_inv (hsends : Sends burst) (hneed : 0 < need) (hmem : pNeedData.length = need)
    {n : Nat} {t : Transfer} (hrun : transferRun burst need pNeedData n = some t) :
    TransferInv burst need t :=
  @runAll_range_inv _ _ (fun _ => TransferInv burst need) _ _
    (show TransferInv burst need ⟨.outer, 0, 0, [], []⟩ from ⟨.start, Nat.zero_mod _⟩)
    (fun _ _ _ _ ht hstep => transferStep_inv hsends hneed hmem ht hstep) _ hrun

/-- A run and one step more. -/
theorem transferRun_succ {n : Nat} {t t' : Transfer}
    (hrun : transferRun burst need pNeedData n = some t)
    (hstep : transferStep burst need pNeedData t = some t') :
    transferRun burst need pNeedData (n + 1) = some t' := by
  rw [transferRun, runAll_range_succ]
  exact Option.bind_eq_some_iff.mpr ⟨t, hrun, hstep⟩

/-- The FPGA is to be given the rest of the block at `p`; no call has failed. -/
structure AsksAt (need p : Nat) (t : Transfer) : Prop where
  control : t.control = .inner
  pTemp : t.pTemp = p
  rest : t.onceTransmitSize = (blockSize need - p % blockSize need : Nat)
  answers : ∀ a ∈ t.answers, 0 ≤ a

/-- The outer loop begins a block. -/
theorem outer_asksAt (hneed : 0 < need) {t : Transfer} (hcontrol : t.control = .outer)
    (hmod : t.pTemp % blockSize need = 0) (hanswers : ∀ a ∈ t.answers, 0 ≤ a) :
    ∃ t', transferStep burst need pNeedData t = some t' ∧ AsksAt need t.pTemp t' := by
  refine ⟨{ t with
    onceTransmitSize := if (need : Int) > maxSize then maxSize else need
    control := .inner }, ?_, rfl, rfl, ?_, hanswers⟩
  · simp only [transferStep, hcontrol]
    rw [if_pos (by omega)]
  · rw [hmod, Nat.sub_zero]
    unfold blockSize
    dsimp only
    split_ifs <;> omega

/-- The call, when the block is inside the buffer. -/
theorem asksAt_step (hmem : pNeedData.length = need) {p r : Nat} {t : Transfer}
    (ht : AsksAt need p t) (hlt : p < wholeBlocks need)
    (hr : r = blockSize need - p % blockSize need) :
    transferStep burst need pNeedData t =
      if burst p r < 0 then
        some { t with answers := t.answers ++ [burst p r], control := .returned (-2) }
      else some { t with
        onceTransmitSize := r - burst p r
        pTemp := p + (burst p r).toNat
        sent := t.sent ++ slice pNeedData p (burst p r).toNat
        answers := t.answers ++ [burst p r] } := by
  -- what is asked for ends with the block, and the block inside the buffer
  have hend : p + (blockSize need - p % blockSize need) ≤ wholeBlocks need := (rest_end hlt).1
  have hblocks : wholeBlocks need ≤ need := Nat.div_mul_le_self need (blockSize need)
  have honce : 0 < blockSize need := Nat.pos_of_ne_zero fun h => by
    rw [wholeBlocks, h, Nat.mul_zero] at hlt
    omega
  have hmod := Nat.mod_lt p honce
  simp only [transferStep, ht.control, ht.rest, ht.pTemp, ← hr, Int.toNat_natCast]
  -- both bounds tests of the loop pass
  rw [if_pos (by omega), if_pos (by omega)]

/-- **Where the FPGA takes bytes, the run asks it for the rest of the block.** -/
theorem reaches_call (hsends : Sends burst) (hneed : 0 < need) (hmem : pNeedData.length = need)
    {p : Nat} (htakes : TakesUpTo burst (blockSize need) p)
    (hlt : p < wholeBlocks need) :
    ∃ n t, transferRun burst need pNeedData n = some t ∧ AsksAt need p t := by
  induction htakes with
  | start =>
    obtain ⟨t, hstep, ht⟩ := @outer_asksAt burst need pNeedData hneed ⟨.outer, 0, 0, [], []⟩ rfl
      (Nat.zero_mod _) nofun
    exact ⟨1, t, transferRun_succ rfl hstep, ht⟩
  | @call q _ hok ih =>
    obtain ⟨n, t, hrun, ht⟩ := ih (by omega)
    have hmod := Nat.mod_lt q (blockSize_pos hneed)
    obtain ⟨-, hend⟩ := rest_end (show q < wholeBlocks need by omega)
    obtain ⟨r, hr⟩ : ∃ r, r = blockSize need - q % blockSize need := ⟨_, rfl⟩
    have hstep := @asksAt_step burst need pNeedData hmem q r t ht (by omega) hr
    have htaken := (hsends q r (by omega)).resolve_left (by rw [hr]; omega)
    rw [← hr] at hlt hok hend ⊢
    rw [if_neg (by omega)] at hstep
    obtain ⟨k, hk⟩ := Int.eq_ofNat_of_zero_le hok
    rw [hk, Int.toNat_natCast] at hstep
    rw [hk] at htaken
    rw [hk, Int.toNat_natCast] at hlt ⊢
    have hrun₁ := transferRun_succ hrun hstep
    have hanswers : ∀ a ∈ t.answers ++ [(k : Int)], 0 ≤ a := by
      intro a ha
      rcases List.mem_append.mp ha with hold | hnew
      · exact ht.answers a hold
      · rw [List.mem_singleton.mp hnew]
        omega
    -- a call takes a part of what is left of the block, or all of it
    rcases Nat.lt_or_ge k r with hpart | hall
    · -- the block goes on
      refine ⟨n + 1, _, hrun₁, ht.control, rfl, ?_, hanswers⟩
      have hrest := @rest_eq (blockSize need) (q + k) (r - k) (by omega) (by omega)
        (by rw [show q + k + (r - k) = q + r by omega]; exact hend)
      rw [← hrest]
      dsimp only
      omega
    · -- it is through, and the outer loop begins the next one
      obtain rfl : k = r := by omega
      obtain ⟨t', hback, hcontrol, hpTemp, hanswers'⟩ : ∃ t', transferStep burst need pNeedData
          { t with
            onceTransmitSize := (k : Int) - k
            pTemp := q + k
            sent := t.sent ++ slice pNeedData q k
            answers := t.answers ++ [(k : Int)] } = some t' ∧
          t'.control = .outer ∧ t'.pTemp = q + k ∧ t'.answers = t.answers ++ [(k : Int)] := by
        simp only [transferStep, ht.control]
        rw [if_neg (by omega)]
        exact ⟨_, rfl, rfl, rfl, rfl⟩
      obtain ⟨t'', hnext, hasks⟩ := @outer_asksAt burst need pNeedData hneed t' hcontrol
        (by rw [hpTemp]; exact hend) (by rw [hanswers']; exact hanswers)
      rw [hpTemp] at hasks
      exact ⟨n + 3, t'', transferRun_succ (transferRun_succ hrun₁ hback) hnext, hasks⟩

end Run

/-! ## The transfers -/

section Transfers

variable {burst : BurstWrite} {file pNeedData : List Byte} {dataSize : BitVec 32}

/-- The file is never larger than the block. -/
theorem length_le_needBytes {need : Nat} (hneed : needBytes file.length dataSize = need) :
    file.length ≤ need := by
  unfold needBytes at hneed
  split_ifs at hneed with hless
  · omega
  · have htoInt := BitVec.toInt_eq_toNat_cond (dataSize * size1Mb)
    split_ifs at htoInt <;> omega

/-- The memory is the file, filled up with zeros. -/
theorem needData_eq_some_iff :
    needData file dataSize = some pNeedData ↔ ∃ need : Nat, needBytes file.length dataSize = need ∧
      pNeedData = file ++ List.replicate (need - file.length) 0 := by
  unfold needData
  dsimp only
  constructor
  · intro h
    split_ifs at h with hneg
    obtain ⟨need, hneed⟩ := Int.eq_ofNat_of_zero_le (not_lt.mp hneg)
    rw [hneed, Int.toNat_natCast] at h
    exact ⟨need, hneed, (Option.some.inj h).symm⟩
  · rintro ⟨need, hneed, rfl⟩
    rw [hneed, if_neg (by omega), Int.toNat_natCast]

/-- It is as long as is needed. -/
theorem length_needData {need : Nat} (hneed : needBytes file.length dataSize = need) :
    (file ++ List.replicate (need - file.length) (0 : Byte)).length = need := by
  have := length_le_needBytes hneed
  rw [List.length_append, List.length_replicate]
  omega

/-- A transfer that does what it is for sends nothing, or a call fails in time. -/
theorem TransfersPicture.fails (h : TransfersPicture burst file dataSize) (hsends : Sends burst) :
    ∃ need : Nat, needBytes file.length dataSize = need ∧
      (0 < need → FailsBefore burst (blockSize need) (wholeBlocks need)) := by
  obtain ⟨n, t, hrun, hok, hfailed⟩ := h
  obtain ⟨pNeedData, hdata, hrun⟩ := Option.bind_eq_some_iff.mp hrun
  obtain ⟨need, hneed, rfl⟩ := needData_eq_some_iff.mp hdata
  refine ⟨need, hneed, ?_⟩
  intro hpos
  rw [hneed] at hrun
  have hinv := transfer_inv hsends hpos (length_needData hneed) hrun
  unfold TransferInv at hinv
  -- with bytes to send nothing but -2 is ever returned
  by_cases hanswers : ∀ a ∈ t.answers, 0 ≤ a
  · rw [(hok hanswers).1] at hinv
    exact absurd hinv.1 (by decide)
  · rw [(hfailed hanswers).1] at hinv
    exact hinv.2

/-- **The transfers that do what they are for**: there is nothing to send, or the FPGA fails
a call within the whole blocks of the buffer. -/
theorem transfersPicture_iff (hsends : Sends burst) :
    TransfersPicture burst file dataSize ↔
      needBytes file.length dataSize = 0 ∨ ∃ need : Nat, 0 < need ∧
        needBytes file.length dataSize = need ∧
          FailsBefore burst (blockSize need) (wholeBlocks need) := by
  constructor
  · intro h
    obtain ⟨need, hneed, hfails⟩ := h.fails hsends
    rcases Nat.eq_zero_or_pos need with rfl | hpos
    · exact .inl hneed
    · exact .inr ⟨need, hpos, hneed, hfails hpos⟩
  · rintro (hzero | ⟨need, hpos, hneed, p, hlt, htakes, hfail⟩)
    -- no byte to send, or the call at `p` fails inside the buffer
    · have hempty := @length_le_needBytes file dataSize 0 hzero
      obtain rfl : file = [] := List.length_eq_zero_iff.mp (by omega)
      refine ⟨1, ⟨.returned 0, 0, 0, [], []⟩, ?_, fun _ => ⟨rfl, hzero.symm, 0, rfl⟩, nofun⟩
      have hdata := needData_eq_some_iff.mpr ⟨0, hzero, rfl⟩
      rw [fpgaTransPicData, hdata, hzero]
      rfl
    · have hmem := length_needData hneed
      obtain ⟨n, t, hrun, hasks⟩ := reaches_call hsends hpos hmem htakes hlt
      have hcall := @asksAt_step burst need _ hmem p _ t hasks hlt rfl
      rw [if_pos hfail] at hcall
      obtain ⟨t', hstep, hcontrol, hanswers⟩ : ∃ t',
          transferStep burst need (file ++ List.replicate (need - file.length) 0) t = some t' ∧
            t'.control = .returned (-2) ∧
            t'.answers = t.answers ++ [burst p (blockSize need - p % blockSize need)] :=
        ⟨_, hcall, rfl, rfl⟩
      refine ⟨n + 1, t', ?_, fun hall => ?_,
        fun _ => ⟨hcontrol, t.answers, _, hanswers, hfail, hasks.answers⟩⟩
      · rw [fpgaTransPicData, needData_eq_some_iff.mpr ⟨need, hneed, rfl⟩, hneed]
        exact transferRun_succ hrun hstep
      · rw [hanswers] at hall
        have := hall _ (List.mem_append_right _ (List.mem_singleton.mpr rfl))
        omega

end Transfers

/-- An FPGA that takes two bytes a call, and fails when it has four. -/
def fullFpga : BurstWrite := fun p n => if p < 4 then (min 2 n : Nat) else -1

/-- It never takes more than it is given. -/
theorem fullFpga_sends : Sends fullFpga := by
  intro p n hn
  unfold fullFpga
  split_ifs <;> omega

/-- It has four bytes after two calls. -/
theorem fullFpga_takesUpTo_four : TakesUpTo fullFpga 8 4 :=
  (TakesUpTo.start.call (by decide)).call (by decide)

/-- A file of eight bytes: the third call fails. -/
theorem transfersPicture_iff_full :
    TransfersPicture fullFpga [8, 7, 6, 5, 4, 3, 2, 1] 0 :=
  (transfersPicture_iff fullFpga_sends).mpr
    (.inr ⟨8, by decide, by decide, 4, by decide, fullFpga_takesUpTo_four, by decide⟩)

/-- An FPGA that takes all it is given. -/
def eagerFpga : BurstWrite := fun _ n => n

/-- Nor does this one. -/
theorem eagerFpga_sends : Sends eagerFpga := fun _ _ hn => .inr ⟨Int.ofNat_le.mpr hn, le_rfl⟩

/-- A file of one byte is sent, and then what is behind it. -/
theorem eagerFpga_not_transfersPicture : ¬∀ (burst : BurstWrite) (file : List Byte)
    (dataSize : BitVec 32), Sends burst → TransfersPicture burst file dataSize := by
  intro hall
  obtain ⟨need, hneed, hfails⟩ := (hall eagerFpga [0] 0 eagerFpga_sends).fails eagerFpga_sends
  have hone : needBytes [(0 : Byte)].length 0 = 1 := by decide
  obtain ⟨p, -, -, hneg⟩ := hfails (by omega)
  unfold eagerFpga at hneg
  omega

end PgClient.Fpga
