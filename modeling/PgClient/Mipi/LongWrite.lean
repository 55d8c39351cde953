import PgClient.Util.LittleEndian

/-!
# Long writes through the MIPI bridge

`mipi2828Write2IC` writes the length of a packet, then its bytes in words of 16 bits: the register
with the first byte of data, the rest from a zeroed copy. The bridge takes the low byte of each word
first, and as many bytes as the length says.

* `sentBytes_eq` — the words hold the register and all of the data, for every number of bytes.
* `received_eq` — what is taken of them is one byte short, and counted modulo 65536.
* `not_receivesAll` — so the packet never arrives as a whole.
-/

namespace PgClient.Mipi

/-! ## The code -/

/-- The three bytes of a `spiCtrlWrite`, and the chip they are for. -/
structure SpiWrite where
  spiNo : BitVec 32
  tx : Byte × Byte × Byte
  deriving DecidableEq

/-- `WriteSSD2828`: the address of a register, then its value, the high byte first. -/
def writeSSD2828 (spiNo : BitVec 32) (addr : Byte) (data : BitVec 16) : List SpiWrite :=
  [⟨spiNo, 0x70, 0x00, addr⟩,
    ⟨spiNo, 0x72, ((data &&& 0xFF00) >>> 8).setWidth 8, (data &&& 0xFF).setWidth 8⟩]

/-- `WriteCMDSSD2828`: an address only. -/
def writeCMDSSD2828 (spiNo : BitVec 32) (command : Byte) : List SpiWrite :=
  [⟨spiNo, 0x70, 0x00, command⟩]

/-- `WriteDATASSD2828`: another value for the register addressed before. -/
def writeDATASSD2828 (spiNo : BitVec 32) (data : BitVec 16) : List SpiWrite :=
  [⟨spiNo, 0x72, ((data &&& 0xFF00) >>> 8).setWidth 8, (data &&& 0xFF).setWidth 8⟩]

/-- `translateChannel2SpiCs`. -/
def translateChannel2SpiCs (channel : Int) : BitVec 32 :=
  if channel = 3 then 0x11
  else if channel = 2 then 0x12
  else if channel = 1 then 0x21
  else if channel = 0 then 0x22
  else 0

def mipi2828VcCtrlReg : Byte := 0xB8

def mipi2828ParamLenReg : Byte := 0xBC

def mipi2828DstCacheReg : Byte := 0xBF

/-- The words of the zeroed memory that data is copied into. -/
def tempWords (pData : List Byte) : List (BitVec 16) :=
  let actualLen := if pData.length % 2 ≠ 0 then pData.length / 2 + 1 else pData.length / 2
  let pTemp := pData ++ List.replicate (2 * actualLen - pData.length) 0
  (List.range actualLen).map fun i => le16 (pTemp.drop (2 * i))

/-- `mipi2828Write2IC`; without data there is no packet. -/
def mipi2828Write2IC (channel : Int) (regAddr : Byte) (pData : List Byte) : List SpiWrite :=
  let spiNo := translateChannel2SpiCs channel
  writeSSD2828 spiNo mipi2828VcCtrlReg 0x0000 ++
    match pData with
    | [] => writeCMDSSD2828 spiNo regAddr
    | first :: rest =>
      writeSSD2828 spiNo mipi2828ParamLenReg (BitVec.ofNat 16 pData.length) ++
        writeSSD2828 spiNo mipi2828DstCacheReg (regAddr.setWidth 16 ||| first.setWidth 16 <<< 8) ++
        -- nothing more is written for one byte
        (if rest = [] then [] else (tempWords rest).flatMap (writeDATASSD2828 spiNo))

/-! ## The receiver -/

/-- The bridge: the register addressed, the length of the packet and its words so far. -/
structure Bridge where
  selected : Byte
  paramLen : BitVec 16
  words : List (BitVec 16)

/-- A value for the register addressed; a length starts a packet. -/
def Bridge.put (b : Bridge) (data : BitVec 16) : Bridge :=
  if b.selected = mipi2828ParamLenReg then { b with paramLen := data, words := [] }
  else if b.selected = mipi2828DstCacheReg then { b with words := b.words ++ [data] }
  else b

/-- The bridge on a chip select takes what is written to it. -/
def Bridge.step (spiNo : BitVec 32) (b : Bridge) (write : SpiWrite) : Bridge :=
  if write.spiNo ≠ spiNo then b
  else if write.tx.1 = 0x70 then { b with selected := write.tx.2.2 }
  else if write.tx.1 = 0x72 then b.put (write.tx.2.1 ++ write.tx.2.2)
  else b

/-- The bytes of the packet: the low one of each word first, so many as the length says. -/
def Bridge.received (b : Bridge) : List Byte := (b.words.flatMap le16Bytes).take b.paramLen.toNat

/-- What the bridge of a channel gets of a write. -/
def receivedOf (channel : Int) (regAddr : Byte) (pData : List Byte) (b : Bridge) : List Byte :=
  ((mipi2828Write2IC channel regAddr pData).foldl
    (Bridge.step (translateChannel2SpiCs channel)) b).received

/-! ## Words and bytes -/

/-- Both bytes of a value arrive. -/
theorem spi_bytes (data : BitVec 16) :
    ((data &&& 0xFF00) >>> 8).setWidth 8 ++ (data &&& 0xFF).setWidth 8 = data := by
  have hlow : ∀ i < 8, (0xFF : BitVec 16).getLsbD i = true := by decide
  have hhigh : ∀ i < 16, 8 ≤ i → (0xFF00 : BitVec 16).getLsbD i = true := by decide
  apply BitVec.eq_of_getLsbD_eq
  intro i hi
  rw [BitVec.getLsbD_append]
  -- each byte keeps its own bits through the mask
  by_cases h8 : i < 8
  · rw [if_pos h8, BitVec.getLsbD_setWidth, BitVec.getLsbD_and, hlow i h8]
    simp [h8]
  · have hadd : 8 + (i - 8) = i := by omega
    have h16 : i - 8 < 8 := by omega
    rw [if_neg h8, BitVec.getLsbD_setWidth, BitVec.getLsbD_ushiftRight, hadd, BitVec.getLsbD_and,
      hhigh i hi (by omega)]
    simp [h16]

/-- The register and the first byte of data share a word. -/
theorem or_shift_eq_append (lo hi : Byte) :
    lo.setWidth 16 ||| hi.setWidth 16 <<< 8 = (hi ++ lo : BitVec 16) := by
  apply BitVec.eq_of_getLsbD_eq
  intro i hi
  rw [BitVec.getLsbD_append, BitVec.getLsbD_or, BitVec.getLsbD_setWidth, BitVec.getLsbD_shiftLeft]
  by_cases h8 : i < 8
  · simp [h8, hi]
  · simp [h8, hi, BitVec.getLsbD_of_ge lo i (by omega), show i - 8 < 16 by omega]

/-- Two bytes make a word, the second one on top. -/
theorem tempWords_cons_cons (a b : Byte) (rest : List Byte) :
    tempWords (a :: b :: rest) = (b ++ a) :: tempWords rest := by
  have hparity : (rest.length + 1 + 1) % 2 = rest.length % 2 := by omega
  have hhalf : (rest.length + 1 + 1) / 2 = rest.length / 2 + 1 := by omega
  unfold tempWords
  simp only [List.length_cons, hparity, hhalf]
  -- the number of words counts on by one, the padding stays
  generalize hn : (if rest.length % 2 ≠ 0 then rest.length / 2 + 1 else rest.length / 2) = n
  have hn' : (if rest.length % 2 ≠ 0 then rest.length / 2 + 1 + 1 else rest.length / 2 + 1) = n + 1 := by
    rw [← hn]
    split_ifs <;> rfl
  rw [hn', show 2 * (n + 1) - (rest.length + 1 + 1) = 2 * n - rest.length by omega,
    List.range_succ_eq_map, List.map_cons, List.map_map]
  rfl

/-- **The words of the copy hold the data**, and a zero behind an odd number of bytes. -/
theorem tempWords_bytes : ∀ pData : List Byte,
    (tempWords pData).flatMap le16Bytes = pData ++ List.replicate (pData.length % 2) 0
  | [] => rfl
  | [a] => by
    -- half a word, with the zero of `calloc` in the other half
    have hwords : tempWords [a] = [(0 : Byte) ++ a] := by simp [tempWords, le16]
    rw [hwords, List.flatMap_singleton, le16Bytes_append]
    rfl
  | a :: b :: rest => by
    rw [tempWords_cons_cons, List.flatMap_cons, le16Bytes_append, tempWords_bytes rest,
      List.length_cons, List.length_cons, Nat.add_assoc, Nat.add_mod_right]
    rfl

/-! ## The run of the bridge -/

section Run

variable {spiNo : BitVec 32} {b : Bridge}

/-- A transfer of a register number selects it. -/
theorem step_address (addr : Byte) :
    b.step spiNo ⟨spiNo, 0x70, 0x00, addr⟩ = { b with selected := addr } := by
  simp [Bridge.step]

/-- A transfer of a value puts it into the selected register. -/
theorem step_value (data : BitVec 16) :
    b.step spiNo ⟨spiNo, 0x72, ((data &&& 0xFF00) >>> 8).setWidth 8, (data &&& 0xFF).setWidth 8⟩ =
      b.put data := by
  unfold Bridge.step
  rw [if_neg (by simp), if_neg (by simp), if_pos rfl, spi_bytes]

/-- A register that is written. -/
theorem foldl_writeSSD2828 (addr : Byte) (data : BitVec 16) :
    (writeSSD2828 spiNo addr data).foldl (Bridge.step spiNo) b =
      ({ b with selected := addr } : Bridge).put data := by
  unfold writeSSD2828
  rw [List.foldl_cons, List.foldl_cons, List.foldl_nil, step_address, step_value]

/-- Words for the packet are added to it. -/
theorem foldl_writeDATASSD2828 (ws : List (BitVec 16)) (hsel : b.selected = mipi2828DstCacheReg) :
    (ws.flatMap (writeDATASSD2828 spiNo)).foldl (Bridge.step spiNo) b =
      { b with words := b.words ++ ws } := by
  induction ws generalizing b with
  | nil => simp
  | cons data ws ih =>
    -- the register stays selected, so each value is one more word
    have hput : b.put data = { b with words := b.words ++ [data] } := by
      unfold Bridge.put
      rw [hsel, if_neg (by decide), if_pos rfl]
    have hfirst : (writeDATASSD2828 spiNo data).foldl (Bridge.step spiNo) b =
        { b with words := b.words ++ [data] } := (step_value data).trans hput
    rw [List.flatMap_cons, List.foldl_append, hfirst,
      ih (b := { b with words := b.words ++ [data] }) hsel, List.append_assoc]
    rfl

end Run

/-- The words of a packet: the register with the first byte, then the rest. -/
def packetWords (regAddr first : Byte) (rest : List Byte) : List (BitVec 16) :=
  (first ++ regAddr) :: (if rest = [] then [] else tempWords rest)

/-- **The words hold the register and all of the data**, and a zero if that is an odd number of
bytes. -/
theorem sentBytes_eq (regAddr first : Byte) (rest : List Byte) :
    (packetWords regAddr first rest).flatMap le16Bytes =
      regAddr :: first :: (rest ++ List.replicate (rest.length % 2) 0) := by
  have hrest : (if rest = [] then [] else tempWords rest).flatMap le16Bytes =
      rest ++ List.replicate (rest.length % 2) 0 := by
    split_ifs with hnil
    · subst hnil
      rfl
    · exact tempWords_bytes rest
  unfold packetWords
  rw [List.flatMap_cons, le16Bytes_append, hrest]
  rfl

/-- The bridge at the end of a write with data, whatever it was before. -/
theorem foldl_mipi2828Write2IC (channel : Int) (regAddr first : Byte) (rest : List Byte) (b : Bridge) :
    (mipi2828Write2IC channel regAddr (first :: rest)).foldl
        (Bridge.step (translateChannel2SpiCs channel)) b =
      ⟨mipi2828DstCacheReg, BitVec.ofNat 16 (rest.length + 1), packetWords regAddr first rest⟩ := by
  unfold mipi2828Write2IC packetWords
  rw [List.foldl_append, foldl_writeSSD2828, List.foldl_append, List.foldl_append,
    foldl_writeSSD2828, foldl_writeSSD2828, or_shift_eq_append]
  -- three registers: the one of the virtual channel is of no matter, then a new packet, then a word
  have hput : ∀ b : Bridge, ({ ({ b.put 0x0000 with selected := mipi2828ParamLenReg } : Bridge).put
      (BitVec.ofNat 16 (first :: rest).length) with selected := mipi2828DstCacheReg } : Bridge).put
        (first ++ regAddr) =
      ⟨mipi2828DstCacheReg, BitVec.ofNat 16 (rest.length + 1), [first ++ regAddr]⟩ := fun b => rfl
  rw [hput]
  split_ifs with hnil
  · rfl
  · rw [foldl_writeDATASSD2828 _ rfl]
    rfl

/-! ## What is received -/

/-- **What the bridge takes**: as many bytes as the data has, counted modulo 65536, but the register
is the first of them. -/
theorem received_eq (channel : Int) (regAddr first : Byte) (rest : List Byte) (b : Bridge) :
    receivedOf channel regAddr (first :: rest) b =
      (regAddr :: first :: rest).take ((rest.length + 1) % 65536) := by
  have hle : (rest.length + 1) % 65536 ≤ (regAddr :: first :: rest).length := by
    have := Nat.mod_le (rest.length + 1) 65536
    simp only [List.length_cons]
    omega
  unfold receivedOf Bridge.received
  rw [foldl_mipi2828Write2IC, sentBytes_eq, BitVec.toNat_ofNat,
    show regAddr :: first :: (rest ++ List.replicate (rest.length % 2) 0) =
      (regAddr :: first :: rest) ++ List.replicate (rest.length % 2) 0 from rfl,
    List.take_append_of_le_length hle]

/-- With the register counted, the bridge would take all of it, below 65536 bytes. -/
theorem received_counted (regAddr first : Byte) (rest : List Byte) (hlen : rest.length + 2 < 65536) :
    (⟨mipi2828DstCacheReg, BitVec.ofNat 16 (rest.length + 2), packetWords regAddr first rest⟩ :
      Bridge).received = regAddr :: first :: rest := by
  unfold Bridge.received
  rw [sentBytes_eq, toNat_ofNat_of_lt hlen]
  have hlen : (regAddr :: first :: rest).length = rest.length + 2 := rfl
  exact List.take_left' hlen

/-- **The register and all of the data arrive.** -/
def ReceivesAll (channel : Int) (regAddr : Byte) (pData : List Byte) (b : Bridge) : Prop :=
  receivedOf channel regAddr pData b = regAddr :: pData

/-- **A packet never arrives as a whole**: at least its last byte is lost, and from 65536 bytes on
all but those that are left of the count. -/
theorem not_receivesAll (channel : Int) (regAddr first : Byte) (rest : List Byte) (b : Bridge) :
    ¬ReceivesAll channel regAddr (first :: rest) b ∧
      receivedOf channel regAddr (first :: rest) b =
        (regAddr :: first :: rest).take ((rest.length + 1) % 65536) := by
  -- all of it would be one byte more than is ever taken
  refine ⟨fun hall => ?_, received_eq channel regAddr first rest b⟩
  have hlen := congrArg List.length (hall.symm.trans (received_eq channel regAddr first rest b))
  have hmod := Nat.mod_le (rest.length + 1) 65536
  rw [List.length_take, List.length_cons, List.length_cons] at hlen
  omega

/-- Register `0xB9` with the three bytes of the extended commands: the last one is lost. -/
theorem extendCmd_not_receivesAll :
    ¬ReceivesAll 0 0xB9 [0xFF, 0x83, 0x94] ⟨0, 0, []⟩ := by
  unfold ReceivesAll
  rw [received_eq]
  decide

end PgClient.Mipi
