import PgClient.Util.Text

/-!
# Network settings

The files of `main.c` that keep the address and the MAC of the device: records that are filled by
`strcpy`, field after field.

* `settings_kept_iff` — an address is kept if and only if all of its three texts fit.
* `mac_kept` — a MAC that fits.
-/

namespace PgClient.Server.Settings

open Text

/-! ## The code -/

/-- `network_info_t`: the offsets of its fields, and where it ends. -/
def ipOff : Nat := 3
def tagNetmaskOff : Nat := 19
def netmaskOff : Nat := 27
def tagGatewayOff : Nat := 43
def gatewayOff : Nat := 51
def networkInfoLen : Nat := 67

/-- `network_mac_info_t`. -/
def macOff : Nat := 4
def networkMacInfoLen : Nat := 22

/-- `net_work_config_write`, of three texts: what is written to the file. It is `none` where a text
goes behind the end of the record. -/
def netWorkConfigWrite (ip netmask gateway : List Byte) : Option (List Byte) := do
  let netInfo := List.replicate networkInfoLen 0
  let netInfo ← strcpy netInfo 0 (ascii "IP ")
  let netInfo ← strcpy netInfo ipOff ip
  let netInfo ← strcpy netInfo tagNetmaskOff (ascii "NETMASK ")
  let netInfo ← strcpy netInfo netmaskOff netmask
  let netInfo ← strcpy netInfo tagGatewayOff (ascii "GATEWAY ")
  strcpy netInfo gatewayOff gateway

/-- `fread` into a record of zeros. -/
def record (n : Nat) (file : List Byte) : List Byte := (file ++ List.replicate n 0).take n

/-- `strcpy` of a field into a buffer with room for `size` bytes; `none` where it has no end in the
record, or goes behind the end of the buffer. -/
def field (size : Nat) (mem : List Byte) (off : Nat) : Option (List Byte) := do
  let s ← strAt mem off
  if s.length < size then some s else none

/-- `net_work_config_read`, of a file that is there, with the buffers of `net_work_config`. -/
def netWorkConfigRead (file : List Byte) : Option (List Byte × List Byte × List Byte) := do
  let netInfo := record networkInfoLen file
  let ip ← field 16 netInfo ipOff
  let netmask ← field 16 netInfo netmaskOff
  let gateway ← field 16 netInfo gatewayOff
  some (ip, netmask, gateway)

/-- `net_work_mac_config_write`. -/
def netWorkMacConfigWrite (mac : List Byte) : Option (List Byte) := do
  let netMacInfo := List.replicate networkMacInfoLen 0
  let netMacInfo ← strcpy netMacInfo 0 (ascii "MAC ")
  strcpy netMacInfo macOff mac

/-- `net_work_mac_config_read`. -/
def netWorkMacConfigRead (file : List Byte) : Option (List Byte) :=
  field 18 (record networkMacInfoLen file) macOff

/-! ## What a record holds -/

theorem record_self {n : Nat} {file : List Byte} (h : file.length = n) : record n file = file := by
  rw [record, List.take_append_of_le_length h.ge, ← h, List.take_length]

variable {mem mem' s : List Byte} {off size : Nat}

/-- A text that is still there, with its NUL. -/
theorem field_of_getElem? (hs : Plain s) (hsize : s.length < size)
    (hchars : ∀ k < s.length, mem[off + k]? = s[k]?) (hnul : mem[off + s.length]? = some 0) :
    field size mem off = some s := by
  rw [field, strAt_of_getElem? hs hchars hnul]
  exact if_pos hsize

/-- A text of which too many characters are still there. -/
theorem field_eq_none (hs : Plain s) (hsize : size ≤ s.length)
    (hchars : ∀ k < size, mem[off + k]? = s[k]?) : field size mem off = none := by
  unfold field
  cases hstr : strAt mem off with
  | none => rfl
  | some t =>
    have hle : size ≤ t.length := by
      refine le_length_of_strAt hstr fun k hk => ⟨s[k], ?_, hs _ (List.getElem_mem _)⟩
      rw [hchars k hk, List.getElem?_eq_getElem]
    exact if_neg (by omega)

theorem exists_strcpy (mem : List Byte) (off : Nat) (s : List Byte)
    (h : off + s.length < mem.length) : ∃ mem', strcpy mem off s = some mem' := ⟨_, if_pos h⟩

theorem lt_of_strcpy (h : strcpy mem off s = some mem') : off + s.length < mem.length := by
  unfold strcpy at h
  split at h
  · assumption
  · cases h

/-! ## The address -/

/-- What is in the file, wherever the texts end. -/
structure Written (ip netmask gateway file : List Byte) : Prop where
  length : file.length = networkInfoLen
  ipChars : ∀ k < 16, k < ip.length → file[ipOff + k]? = ip[k]?
  ipEnd : ip.length < 16 → file[ipOff + ip.length]? = some 0
  netmaskChars : ∀ k < 16, k < netmask.length → file[netmaskOff + k]? = netmask[k]?
  netmaskEnd : netmask.length < 16 → file[netmaskOff + netmask.length]? = some 0
  gatewayChars : ∀ k < gateway.length, file[gatewayOff + k]? = gateway[k]?
  gatewayEnd : file[gatewayOff + gateway.length]? = some 0
  room : gateway.length < 16

/-- What is written is a record of the three texts. -/
theorem written_of_write {ip netmask gateway file : List Byte}
    (h : netWorkConfigWrite ip netmask gateway = some file) : Written ip netmask gateway file := by
  simp only [netWorkConfigWrite, Option.bind_eq_bind, Option.bind_eq_some_iff] at h
  obtain ⟨m₁, h₁, m₂, h₂, m₃, h₃, m₄, h₄, m₅, h₅, h₆⟩ := h
  have htag : (ascii "NETMASK ").length = 8 ∧ (ascii "GATEWAY ").length = 8 := by decide
  have hlen : m₅.length = 67 := by
    rw [length_strcpy h₅, length_strcpy h₄, length_strcpy h₃, length_strcpy h₂, length_strcpy h₁]
    rfl
  have hroom := lt_of_strcpy h₆
  unfold ipOff at h₂
  unfold tagNetmaskOff at h₃
  unfold netmaskOff at h₄
  unfold tagGatewayOff at h₅
  unfold gatewayOff at h₆ hroom
  -- the copies from the last to the first: a later one may have overwritten an earlier one
  have hg (i : Nat) := getElem?_strcpy h₆ i
  have hf (i : Nat) := getElem?_strcpy h₅ i
  have he (i : Nat) := getElem?_strcpy h₄ i
  have hd (i : Nat) := getElem?_strcpy h₃ i
  have hc (i : Nat) := getElem?_strcpy h₂ i
  rw [htag.1] at hd
  rw [htag.2] at hf
  refine ⟨(length_strcpy h₆).trans hlen, ?_, ?_, ?_, ?_, ?_, ?_, by omega⟩
  · intro k hk hin
    unfold ipOff
    rw [hg, if_pos (by omega), hf, if_pos (by omega), he, if_pos (by omega), hd, if_pos (by omega),
      hc, if_neg (by omega), if_pos (by omega), Nat.add_sub_cancel_left]
  · intro hin
    unfold ipOff
    rw [hg, if_pos (by omega), hf, if_pos (by omega), he, if_pos (by omega), hd, if_pos (by omega),
      hc, if_neg (by omega), if_neg (by omega), if_pos rfl]
  · intro k hk hin
    unfold netmaskOff
    rw [hg, if_pos (by omega), hf, if_pos (by omega), he, if_neg (by omega), if_pos (by omega),
      Nat.add_sub_cancel_left]
  · intro hin
    unfold netmaskOff
    rw [hg, if_pos (by omega), hf, if_pos (by omega), he, if_neg (by omega), if_neg (by omega),
      if_pos rfl]
  · intro k hk
    unfold gatewayOff
    rw [hg, if_neg (by omega), if_pos (by omega), Nat.add_sub_cancel_left]
  · unfold gatewayOff
    rw [hg, if_neg (by omega), if_neg (by omega), if_pos rfl]

/-- Texts of at most 15 bytes can be written. -/
theorem exists_write {ip netmask gateway : List Byte} (hip : ip.length < 16)
    (hnetmask : netmask.length < 16) (hgateway : gateway.length < 16) :
    ∃ file, netWorkConfigWrite ip netmask gateway = some file := by
  have htag : (ascii "IP ").length = 3 ∧ (ascii "NETMASK ").length = 8 ∧
      (ascii "GATEWAY ").length = 8 := by decide
  -- each copy fits the record, whose length no copy changes
  obtain ⟨m₁, h₁⟩ := exists_strcpy (List.replicate networkInfoLen 0) 0 (ascii "IP ")
    (by rw [htag.1]; decide)
  have hl₁ : m₁.length = 67 := length_strcpy h₁
  obtain ⟨m₂, h₂⟩ := exists_strcpy m₁ ipOff ip (by unfold ipOff; omega)
  have hl₂ := (length_strcpy h₂).trans hl₁
  obtain ⟨m₃, h₃⟩ := exists_strcpy m₂ tagNetmaskOff (ascii "NETMASK ")
    (by unfold tagNetmaskOff; omega)
  have hl₃ := (length_strcpy h₃).trans hl₂
  obtain ⟨m₄, h₄⟩ := exists_strcpy m₃ netmaskOff netmask
    (by unfold netmaskOff; omega)
  have hl₄ := (length_strcpy h₄).trans hl₃
  obtain ⟨m₅, h₅⟩ := exists_strcpy m₄ tagGatewayOff (ascii "GATEWAY ")
    (by unfold tagGatewayOff; omega)
  have hl₅ := (length_strcpy h₅).trans hl₄
  obtain ⟨m₆, h₆⟩ := exists_strcpy m₅ gatewayOff gateway
    (by unfold gatewayOff; omega)
  refine ⟨m₆, ?_⟩
  rw [netWorkConfigWrite]
  simp only [h₁, h₂, h₃, h₄, h₅, h₆, Option.bind_eq_bind, Option.bind_some]

/-- A field of 16 bytes is read if its text has at most 15. -/
theorem field_eq_some_iff {ip : List Byte} (hs : Plain ip)
    (hchars : ∀ k < 16, k < ip.length → mem[off + k]? = ip[k]?)
    (hnul : ip.length < 16 → mem[off + ip.length]? = some 0) :
    field 16 mem off = some ip ↔ ip.length < 16 := by
  constructor
  · intro h
    -- a text that is longer fills its field, and its copy leaves the buffer
    by_contra hlong
    have hnone : field 16 mem off = none :=
      field_eq_none hs (by omega) fun k hk => hchars k hk (by omega)
    cases hnone.symm.trans h
  · intro hlt
    exact field_of_getElem? hs hlt (fun k hk => hchars k (by omega) hk) (hnul hlt)

/-- An address that fits comes back. -/
theorem config_kept {ip netmask gateway : List Byte} (hip : Plain ip) (hnetmask : Plain netmask)
    (hgateway : Plain gateway) (h₁ : ip.length < 16) (h₂ : netmask.length < 16)
    (h₃ : gateway.length < 16) : ∃ file, netWorkConfigWrite ip netmask gateway = some file ∧
      netWorkConfigRead file = some (ip, netmask, gateway) := by
  obtain ⟨file, hwrite⟩ := exists_write h₁ h₂ h₃
  have hw := written_of_write hwrite
  have hread₁ := (field_eq_some_iff hip hw.ipChars hw.ipEnd).mpr h₁
  have hread₂ := (field_eq_some_iff hnetmask hw.netmaskChars hw.netmaskEnd).mpr h₂
  have hread₃ := field_of_getElem? hgateway h₃ hw.gatewayChars hw.gatewayEnd
  refine ⟨file, hwrite, ?_⟩
  rw [netWorkConfigRead, record_self hw.length]
  simp only [hread₁, hread₂, hread₃, Option.bind_eq_bind, Option.bind_some]

/-- **Addresses are kept if they fit**: an address is read back as it was written if and only if
each of its texts has less than 16 characters. -/
theorem settings_kept_iff {ip netmask gateway : List Byte} (hip : Plain ip)
    (hnetmask : Plain netmask) (hgateway : Plain gateway) :
    (netWorkConfigWrite ip netmask gateway).bind netWorkConfigRead = some (ip, netmask, gateway) ↔
      ip.length < 16 ∧ netmask.length < 16 ∧ gateway.length < 16 := by
  constructor
  · intro h
    obtain ⟨file, hwrite, hread⟩ := Option.bind_eq_some_iff.mp h
    have hw := written_of_write hwrite
    rw [netWorkConfigRead, record_self hw.length] at hread
    obtain ⟨ip', h₁, hread⟩ := Option.bind_eq_some_iff.mp hread
    obtain ⟨netmask', h₂, hread⟩ := Option.bind_eq_some_iff.mp hread
    obtain ⟨gateway', h₃, hread⟩ := Option.bind_eq_some_iff.mp hread
    cases hread
    -- a field comes back only if its NUL is in its 16 bytes; the gateway is the last, and has to
    -- fit
    exact ⟨(field_eq_some_iff hip hw.ipChars hw.ipEnd).mp h₁,
      (field_eq_some_iff hnetmask hw.netmaskChars hw.netmaskEnd).mp h₂, hw.room⟩
  · rintro ⟨h₁, h₂, h₃⟩
    obtain ⟨file, hwrite, hread⟩ := config_kept hip hnetmask hgateway h₁ h₂ h₃
    rw [hwrite, Option.bind_some, hread]

/-- An address of the most characters. -/
theorem settings_kept_long :
    (netWorkConfigWrite (ascii "192.168.100.150") (ascii "255.255.255.0") (ascii "192.168.1.1")).bind
        netWorkConfigRead =
      some (ascii "192.168.100.150", ascii "255.255.255.0", ascii "192.168.1.1") ↔
    (ascii "192.168.100.150").length < 16 ∧ (ascii "255.255.255.0").length < 16 ∧
      (ascii "192.168.1.1").length < 16 :=
  settings_kept_iff (by decide) (by decide) (by decide)

/-- A MAC is kept if its text has less than 18 characters. -/
theorem mac_kept {mac : List Byte} (hmac : Plain mac) (hlen : mac.length < 18) :
    ∃ file, netWorkMacConfigWrite mac = some file ∧ netWorkMacConfigRead file = some mac := by
  have htag : (ascii "MAC ").length = 4 := by decide
  -- the tag, and the text behind it
  obtain ⟨m₁, h₁⟩ := exists_strcpy (List.replicate networkMacInfoLen 0) 0 (ascii "MAC ")
    (by rw [htag]; decide)
  have hl₁ : m₁.length = networkMacInfoLen := length_strcpy h₁
  obtain ⟨m₂, h₂⟩ := exists_strcpy m₁ macOff mac (by rw [hl₁, networkMacInfoLen, macOff]; omega)
  have hget (i : Nat) := getElem?_strcpy h₂ i
  refine ⟨m₂, ?_, ?_⟩
  · rw [netWorkMacConfigWrite]
    simp only [h₁, h₂, Option.bind_eq_bind, Option.bind_some]
  · rw [netWorkMacConfigRead, record_self ((length_strcpy h₂).trans hl₁)]
    -- the text is read back up to its NUL
    refine field_of_getElem? hmac hlen (fun k hk => ?_) ?_
    · rw [hget, if_neg (by omega), if_pos (by omega), Nat.add_sub_cancel_left]
    · rw [hget, if_neg (by omega), if_neg (by omega), if_pos rfl]

end PgClient.Server.Settings
