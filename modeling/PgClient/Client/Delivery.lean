import PgClient.Client.Reports
import PgClient.Json.RoundTrip
import PgClient.PackSocket.Transparency

/-!
# Reports arrive

What the calls of `Reports` send is delivered by the receiver of a frame stream, and read by
`cJSON_Parse` and `cJSON_GetObjectItem`.

* `Call.report_sound` — every call makes an object that is printed and read without loss.
* `calls_delivered` — the reports arrive in order, wherever the stream is cut.
* `readGamma_returned` — a block of registers is read back from the text that was reported.
-/

namespace PgClient.Client

open BlockReader Text Json PackSocket PartialRun
open Server.GammaText (clientEndReadGamma strcat)

/-! ## Objects, printed and read -/

/-- The members of an object. -/
def members : List Field → Chain
  | [] => .nil
  | f :: fs => .cons (some f.name) f.item (members fs)

/-- The elements of an array of integers. -/
def elements : List Int → Chain
  | [] => .nil
  | n :: ns => .cons none (createNumber n) (elements ns)

/-- An array of numbers is its elements. -/
theorem createIntArray_eq (numbers : List Int) :
    createIntArray numbers = .array (elements numbers) := by
  -- the elements are put behind those of any chain
  have h : ∀ (ns : List Int) (c : Chain),
      ns.foldl (fun c i => c.snoc none (createNumber i)) c = c.append (elements ns) := by
    intro ns
    induction ns with
    | nil => exact fun c => (Chain.append_nil c).symm
    | cons n ns ih =>
      intro c
      rw [List.foldl_cons, ih, Chain.snoc_append, elements]
  rw [createIntArray, h]
  rfl

theorem Report.object_eq (r : Report) : r.object = .object (members r.fields) := by
  -- the members are put behind those of any chain
  have h : ∀ (fs : List Field) (c : Chain),
      fs.foldl (fun object f => addItemToObject object f.name f.item) (.object c) =
        .object (c.append (members fs)) := by
    intro fs
    induction fs with
    | nil => exact fun c => by rw [members, Chain.append_nil]; rfl
    | cons f fs ih =>
      intro c
      rw [List.foldl_cons, addItemToObject, ih, Chain.snoc_append, members]
  exact h r.fields .nil

theorem sameName_self (s : List Byte) : sameName s s = true := decide_eq_true rfl

theorem sameName_trans {s t u : List Byte} (h : sameName s u = true) (h' : sameName t u = true) :
    sameName s t = true :=
  decide_eq_true ((of_decide_eq_true h).trans (of_decide_eq_true h').symm)

/-- A member is found under its name, in upper or lower case, if it has the name alone. -/
theorem find?_members {fs : List Field}
    (hnames : (fs.map Field.name).Pairwise fun s t => sameName s t = false) {f : Field} (hf : f ∈ fs)
    {name : List Byte} (hname : sameName f.name name = true) :
    (members fs).find? name = some f.item := by
  -- the induction is on the members; the search takes the first that fits
  induction fs with
  | nil => exact absurd hf List.not_mem_nil
  | cons g fs ih =>
    obtain ⟨hg, hrest⟩ := List.pairwise_cons.mp hnames
    rw [members, Chain.find?]
    rcases List.mem_cons.mp hf with rfl | hf
    · rw [if_pos hname]
    · -- an earlier member of that name would have the name of `f` as well
      have hne : sameName g.name name ≠ true := by
        intro h
        have hsame := sameName_trans h hname
        rw [hg f.name (List.mem_map_of_mem hf)] at hsame
        cases hsame
      rw [if_neg hne, ih hrest hf]

namespace Field

/-- The value is printed and read without loss. -/
def Sound : Field → Prop
  | .number _ n => -2147483648 ≤ n ∧ n ≤ 2147483647
  | .string _ s => Plain s
  | .ints _ numbers => ∀ n ∈ numbers, -2147483648 ≤ n ∧ n ≤ 2147483647

/-- A bound on what is printed of a member with a short name. -/
def width : Field → Nat
  | .number _ _ => 138
  | .string _ s => 6 * s.length + 129
  | .ints _ numbers => 13 * numbers.length + 129

@[simp] theorem sound_int (key : String) (n : BitVec 32) : (int key n).Sound := by
  constructor
  · have h := BitVec.le_toInt n
    norm_num at h ⊢
    exact h
  · have h := BitVec.toInt_lt (x := n)
    norm_num at h
    omega

@[simp] theorem sound_short (key : String) (n : BitVec 16) : (short key n).Sound := by
  constructor
  · have h := BitVec.le_toInt n
    norm_num at h
    omega
  · have h := BitVec.toInt_lt (x := n)
    norm_num at h
    omega

@[simp] theorem sound_ushort (key : String) (n : BitVec 16) : (ushort key n).Sound := by
  have h := n.isLt
  constructor <;> omega

@[simp] theorem sound_uchar (key : String) (n : Byte) : (uchar key n).Sound := by
  have h := n.isLt
  constructor <;> omega

@[simp] theorem width_int (key : String) (n : BitVec 32) : (int key n).width = 138 := rfl

@[simp] theorem width_short (key : String) (n : BitVec 16) : (short key n).width = 138 := rfl

@[simp] theorem width_ushort (key : String) (n : BitVec 16) : (ushort key n).width = 138 := rfl

@[simp] theorem width_uchar (key : String) (n : Byte) : (uchar key n).width = 138 := rfl

@[simp] theorem width_number (key : String) (n : Int) : (Field.number key n).width = 138 := rfl

@[simp] theorem width_string (key : String) (s : List Byte) :
    (Field.string key s).width = 6 * s.length + 129 := rfl

@[simp] theorem sound_string (key : String) (s : List Byte) :
    (Field.string key s).Sound ↔ Plain s := Iff.rfl

@[simp] theorem sound_number (key : String) (n : Int) :
    (Field.number key n).Sound ↔ -2147483648 ≤ n ∧ n ≤ 2147483647 := Iff.rfl

end Field

/-- The key is a string of 20 characters at most. -/
def KeyOk (key : String) : Prop := Plain (ascii key) ∧ (ascii key).length ≤ 20

instance instDecidableKeyOk (key : String) : Decidable (KeyOk key) :=
  inferInstanceAs (Decidable (_ ∧ _))

theorem sound_elements {numbers : List Int}
    (h : ∀ n ∈ numbers, -2147483648 ≤ n ∧ n ≤ 2147483647) : (elements numbers).SoundElements := by
  induction numbers with
  | nil => exact trivial
  | cons n ns ih =>
    obtain ⟨hn, hns⟩ := List.forall_mem_cons.mp h
    exact ⟨rfl, ⟨rfl, hn⟩, ih hns⟩

theorem Field.Sound.item {f : Field} (hf : f.Sound) : f.item.Sound := by
  cases f with
  | number key n => exact ⟨rfl, hf⟩
  | string key s => exact hf
  | ints key numbers =>
    rw [Field.item, createIntArray_eq]
    exact sound_elements hf

theorem sound_members {fs : List Field} (hkeys : ∀ f ∈ fs, KeyOk f.key)
    (h : ∀ f ∈ fs, f.Sound) : (members fs).SoundMembers := by
  induction fs with
  | nil => exact trivial
  | cons f fs ih =>
    obtain ⟨hkey, hrest⟩ := List.forall_mem_cons.mp hkeys
    obtain ⟨hf, hfs⟩ := List.forall_mem_cons.mp h
    exact ⟨⟨f.name, rfl, hkey.1⟩, hf.item, ih hrest hfs⟩

/-- An array of integers takes three levels of the parser. -/
theorem levels_elements (numbers : List Int) : (elements numbers).levels ≤ 1 := by
  induction numbers with
  | nil => exact Nat.zero_le 1
  | cons n ns ih => exact max_le (Nat.le_refl 1) ih

theorem levels_members (fs : List Field) : (members fs).levels ≤ 2 := by
  induction fs with
  | nil => exact Nat.zero_le 2
  | cons f fs ih =>
    refine max_le ?_ ih
    cases f with
    | number key n => exact Nat.le_succ 1
    | string key s => exact Nat.le_succ 1
    | ints key numbers =>
      rw [Field.item, createIntArray_eq]
      exact Nat.succ_le_succ (levels_elements numbers)

/-! ## Lengths -/

theorem length_elements_le {numbers : List Int}
    (h : ∀ n ∈ numbers, -2147483648 ≤ n ∧ n ≤ 2147483647) (first : Bool) (depth : Nat) :
    ((elements numbers).entriesText true first depth).length ≤ 13 * numbers.length := by
  induction numbers generalizing first with
  | nil => exact Nat.zero_le _
  | cons n ns ih =>
    obtain ⟨hn, hns⟩ := List.forall_mem_cons.mp h
    -- the digits of an `int` with its sign, and the comma
    have htext : (Item.text true (createNumber n) depth).length ≤ 11 :=
      length_formatD_le hn.1 hn.2
    have hcomma : (if first then [] else comma true).length ≤ 2 := by
      cases first <;> decide
    have hrest := ih hns false
    rw [elements, Chain.entriesText, List.length_append, List.length_append, List.length_cons]
    omega

theorem length_item_le {f : Field} (hf : f.Sound) (depth : Nat) :
    (f.item.text true depth).length + 127 ≤ f.width := by
  cases f with
  | number key n => exact Nat.add_le_add_right (length_formatD_le hf.1 hf.2) 127
  | string key s => exact Nat.add_le_add_right (length_quoted_le s) 127
  | ints key numbers =>
    have htext := length_elements_le hf true (depth + 1)
    rw [Field.item, createIntArray_eq, Item.text, List.length_append, List.length_cons,
      List.length_singleton, Field.width]
    omega

theorem length_members_le {fs : List Field} (hkeys : ∀ f ∈ fs, KeyOk f.key)
    (h : ∀ f ∈ fs, f.Sound) (first : Bool) :
    ((members fs).membersText true first 1).length ≤ (fs.map Field.width).sum := by
  induction fs generalizing first with
  | nil => exact Nat.zero_le _
  | cons f fs ih =>
    obtain ⟨hkey, hrest⟩ := List.forall_mem_cons.mp hkeys
    obtain ⟨hf, hfs⟩ := List.forall_mem_cons.mp h
    have hwidth := length_item_le hf 1
    -- six characters for one of the name, at most, and the quotes
    have hname : (quoted f.name).length ≤ 122 :=
      (length_quoted_le f.name).trans (Nat.add_le_add_right (Nat.mul_le_mul_left 6 hkey.2) 2)
    have hcomma : (if first then [] else ch ',' :: whenFmt true [newline]).length ≤ 2 := by
      cases first <;> decide
    have hnext := ih hrest hfs false
    have htab : (whenFmt true (tabs 1)).length = 1 := rfl
    have hcolon : (ch ':' :: whenFmt true [tab]).length = 2 := rfl
    rw [members, Chain.membersText, Option.getD_some, List.map_cons, List.sum_cons]
    simp only [List.length_append]
    omega

/-! ## One report -/

namespace Report

/-- A report that is printed and read without loss, and goes into one frame. -/
structure Sound (r : Report) : Prop where
  names : (r.fields.map Field.name).Pairwise fun s t => sameName s t = false
  keys : ∀ key ∈ r.fields.map Field.key, KeyOk key
  fields : ∀ f ∈ r.fields, f.Sound
  short : (r.fields.map Field.width).sum ≤ 20000

variable {r : Report}

theorem Sound.key (hr : r.Sound) (f : Field) (hf : f ∈ r.fields) : KeyOk f.key :=
  hr.keys f.key (List.mem_map_of_mem hf)

theorem Sound.object (hr : r.Sound) : r.object.Sound := by
  rw [object_eq]
  exact sound_members hr.key hr.fields

/-- What is sent: the text, with its NUL or without. -/
theorem Sound.payload (hr : r.Sound) :
    r.payload = some (r.object.text true 0 ++ if r.nul then [0] else []) := by
  rw [Report.payload, cJSONPrint, printValue_eq true hr.object, Option.map_some,
    cstr_of_plain (plain_text true hr.object 0)]

/-- Its text is no longer than the buffer it is made for. -/
theorem Sound.length_le (hr : r.Sound) :
    (r.object.text true 0 ++ if r.nul then [0] else []).length ≤ 20010 := by
  have hmembers := length_members_le hr.key hr.fields true
  have hshort := hr.short
  -- the braces with their line ends, around the members
  have htext : (r.object.text true 0).length ≤ 20009 := by
    rw [object_eq, Item.text]
    split
    · exact Nat.le_of_ble_eq_true rfl
    · have hopen : (ch '{' :: whenFmt true [newline]).length = 2 := rfl
      have hclose : (whenFmt true (newline :: tabs 0) ++ [ch '}']).length = 2 := rfl
      rw [List.append_assoc, List.append_assoc, List.length_append, List.length_append, hopen,
        hclose]
      exact Nat.add_le_add_left (Nat.add_le_add_right (hmembers.trans hshort) 2) 2 |>.trans
        (by decide)
  have htail : (if r.nul then [(0 : Byte)] else []).length ≤ 1 := by
    cases r.nul <;> decide
  rw [List.length_append]
  exact Nat.add_le_add htext htail

/-- The report as a message. -/
def msg (r : Report) : Msg where
  typeCmd := r.typeCmd
  ipnum := r.ipnum
  parts := [r.object.text true 0 ++ if r.nul then [0] else []]
  nonempty := List.cons_ne_nil _ _
  count := Nat.le_of_ble_eq_true rfl

/-- Its message is a short one. -/
theorem Sound.msg_short (hr : r.Sound) : r.msg.Short := by
  intro part hpart
  rw [List.mem_singleton.mp hpart]
  have h := hr.length_le
  have h16 : headLen = 16 := rfl
  have hhalf : fifoMaxLen / 2 = 20480 := rfl
  omega

theorem Sound.send_eq (hr : r.Sound) {sendFd : Int} (hfd : sendFd ≠ -1) :
    r.send sendFd = some (streamBytes r.msg.frags) := by
  have hframe := Frag.sendSocketCmd_eq
    ⟨r.typeCmd, r.ipnum, 0, 0, r.object.text true 0 ++ if r.nul then [0] else []⟩ hfd
  rw [send, hr.payload]
  refine hframe.trans ?_
  rw [streamBytes, Msg.frags, msg, List.mapIdx_cons, List.mapIdx_nil, List.flatMap_singleton]
  rfl

/-- A frame is cut into two pieces behind its fifth byte. -/
theorem Sound.pieces (hr : r.Sound) :
    ∀ c ∈ [(streamBytes r.msg.frags).take 5, (streamBytes r.msg.frags).drop 5],
      c ≠ [] ∧ c.length ≤ fifoMaxLen / 2 := by
  have hmem : ∀ f ∈ r.msg.frags, f.Fits := fun f hf => Msg.fits_of_mem hr.msg_short.fits hf
  -- a report is one fragment
  have hone : streamBytes r.msg.frags = (r.msg.frag 0 (r.object.text true 0 ++
      if r.nul then [0] else [])).bytes := by
    rw [streamBytes, Msg.frags, msg, List.mapIdx_cons, List.mapIdx_nil, List.flatMap_singleton]
  have hlen : (r.msg.frag 0 (r.object.text true 0 ++ if r.nul then [0] else [])).bytes.length = _ :=
    Frag.bytes_length (hmem _ (List.mem_cons_self (l := [])))
  have hpayload : (r.msg.frag 0 (r.object.text true 0 ++ if r.nul then [0] else [])).payload =
      r.object.text true 0 ++ if r.nul then [0] else [] := rfl
  have hle := hr.length_le
  have h16 : headLen = 16 := rfl
  have hhalf : fifoMaxLen / 2 = 20480 := rfl
  rw [hpayload] at hlen
  rw [hone]
  refine List.forall_mem_cons.mpr ⟨⟨?_, ?_⟩, List.forall_mem_singleton.mpr ⟨?_, ?_⟩⟩
  · rw [← List.length_pos_iff, List.length_take]
    omega
  · rw [List.length_take]
    omega
  · rw [← List.length_pos_iff, List.length_drop]
    omega
  · rw [List.length_drop]
    omega

/-- What the receiver of a command can tell of a report: the command, and under the name of every
field, in whatever case, the value. -/
def Reads (r : Report) (c : SocketCmd) : Prop :=
  c.cmd = (r.typeCmd &&& 0xFFFF#32).setWidth 16 ∧ c.type = (r.typeCmd >>> 16).setWidth 16 ∧
    c.ipnum = r.ipnum ∧ ∀ stack ≥ 3, ∃ root rest, cJSONParse stack c.pcmd = .ok root rest ∧
      ∀ f ∈ r.fields, ∀ name, sameName f.name name = true → root.getObjectItem name = some f.item

/-- A report that can be printed is read back. -/
theorem Sound.reads (hr : r.Sound) : r.Reads r.msg.delivery := by
  refine ⟨rfl, rfl, rfl, fun stack hstack => ⟨r.object, if r.nul then [0] else [], ?_, ?_⟩⟩
  · have hlevels : r.object.levels ≤ stack := by
      rw [object_eq]
      exact (Nat.succ_le_succ (levels_members r.fields)).trans hstack
    -- behind an object anything may follow, the NUL that is sent with it included
    have hnumber : r.object.IsNumber → Stops (if r.nul then [0] else []) := by
      rw [object_eq]
      exact False.elim
    have hpcmd : r.msg.delivery.pcmd = r.object.text true 0 ++ if r.nul then [0] else [] :=
      List.append_nil _
    rw [hpcmd]
    exact parse_text hr.object true hlevels hnumber
  · intro f hf name hname
    rw [object_eq]
    exact find?_members hr.names hf hname

end Report

/-! ## Texts that are built -/

/-- A run of `strcat` on a block of zeros. -/
theorem runAll_strcat {pieces : List (List Byte)} (hpieces : ∀ piece ∈ pieces, Plain piece)
    {text : List Byte} (htext : Plain text) {n : Nat} (hroom : pieces.flatten.length ≤ n) :
    runAll (fun piece strData => strcat strData (piece ++ [0])) pieces
        (text ++ List.replicate (n + 1) 0) =
      some ((text ++ pieces.flatten) ++ List.replicate (n - pieces.flatten.length + 1) 0) := by
  -- the induction is on the pieces; each takes its length from the zeros behind the text
  induction pieces generalizing text n with
  | nil => rw [runAll, List.flatten_nil, List.append_nil, List.length_nil, Nat.sub_zero]
  | cons piece pieces ih =>
    obtain ⟨hpiece, hrest⟩ := List.forall_mem_cons.mp hpieces
    rw [List.flatten_cons, List.length_append] at hroom
    have hstep := Server.GammaText.strcat_text htext hpiece (n := n) (by omega)
    rw [runAll, hstep, Option.bind_some, ih hrest (htext.append hpiece) (by omega),
      List.flatten_cons, List.length_append, List.append_assoc text, Nat.sub_sub]

/-- The text of a block of registers. -/
def lcdText (data : List Byte) : List Byte := (lcdPieces 0 data).flatten

theorem plain_lcdPieces (data : List Byte) (i : Nat) :
    ∀ piece ∈ lcdPieces i data, Plain piece := by
  induction data generalizing i with
  | nil => exact fun piece h => absurd h List.not_mem_nil
  | cons x data ih =>
    obtain ⟨hhigh, hlow⟩ := Server.GammaText.byte_halves x
    intro piece hpiece
    rw [lcdPieces, List.mem_append] at hpiece
    -- the break of a line, the two digits and the blank, or a later piece
    rcases hpiece with hbreak | hpiece
    · split at hbreak
      · rw [List.mem_singleton.mp hbreak]
        decide
      · exact absurd hbreak List.not_mem_nil
    · rcases List.mem_cons.mp hpiece with rfl | hpiece
      · exact .cons (Server.GammaText.hexDigit_plain _ hhigh).1
          (.cons (Server.GammaText.hexDigit_plain _ hlow).1 (.cons (by decide) plain_nil))
      · exact ih _ piece hpiece

/-- Three characters for a register, and two for every line but the first. -/
theorem length_lcdPieces (data : List Byte) (i : Nat) : (lcdPieces i data).flatten.length ≤
    3 * data.length + 2 * ((i + data.length + 15) / 16 - (i + 15) / 16) := by
  induction data generalizing i with
  | nil => exact Nat.zero_le _
  | cons x data ih =>
    have hrest := ih (i + 1)
    rw [lcdPieces, List.flatten_append, List.flatten_cons, List.length_append, List.length_append,
      List.length_cons, List.length_cons, List.length_cons, List.length_nil, List.length_cons]
    -- a line ends behind sixteen bytes
    by_cases hi : i % 16 = 0
    · have hbreak : (if i ≠ 0 ∧ i % 16 = 0 then [[0x0d, 0x0a]] else
          ([] : List (List Byte))).flatten.length ≤ 2 := by
        split <;> decide
      omega
    · rw [if_neg fun h => hi h.2, List.flatten_nil, List.length_nil]
      omega

theorem lcdStrData_text {data : List Byte} (hroom : data.length ≤ 655) :
    ∃ zeros, lcdStrData data = some (lcdText data ++ 0 :: zeros) := by
  have hlen := length_lcdPieces data 0
  have hrun := runAll_strcat (plain_lcdPieces data 0) plain_nil (n := 2047) (by omega)
  exact ⟨_, hrun⟩

theorem plain_lcdText (data : List Byte) : Plain (lcdText data) := by
  intro c hc
  obtain ⟨piece, hpiece, hc⟩ := List.mem_flatten.mp hc
  exact plain_lcdPieces data 0 piece hpiece c hc

theorem plain_dotted (ns : List Nat) : Plain (dotted ns) := by
  induction ns with
  | nil => exact plain_nil
  | cons n ns ih =>
    cases ns with
    | nil => exact plain_formatD n
    | cons m ns => exact (plain_formatD n).append (.cons (by decide) ih)

/-- Numbers of three digits with their points. -/
theorem length_dotted_le {ns : List Nat} (h : ∀ n ∈ ns, n < 1000) :
    (dotted ns).length ≤ 4 * ns.length := by
  induction ns with
  | nil => exact Nat.zero_le _
  | cons n ns ih =>
    obtain ⟨hn, hns⟩ := List.forall_mem_cons.mp h
    -- below 1000: no more than three digits
    have hlen : (formatD n).length ≤ 3 := by
      rw [formatD, if_neg (by omega), List.nil_append, List.length_map, Int.natAbs_natCast]
      by_cases hzero : n = 0
      · rw [hzero, digits_zero]
        decide
      · rw [digits_of_pos hzero, List.length_reverse]
        exact (Nat.digits_length_le_iff (by decide) n).mpr hn
    have hrest := ih hns
    cases ns with
    | nil => exact hlen.trans (Nat.le_succ 3)
    | cons m ns =>
      show (formatD n ++ ch '.' :: dotted (m :: ns)).length ≤ _
      rw [List.length_append, List.length_cons, List.length_cons]
      omega

/-- The string of a register block. -/
theorem cstr_clientEndReadGamma {data : List Byte} (hdata : data.length ≤ 333) :
    ∃ strData, clientEndReadGamma data = some strData ∧
      cstr strData = Server.GammaText.hexText data := by
  refine ⟨_, Server.GammaText.clientEndReadGamma_text (by omega), ?_⟩
  rw [List.replicate_succ, cstr_append (Server.GammaText.hexText_plain data)]

theorem clientEndReadGammaReport_eq (channel : BitVec 32) {data : List Byte}
    (hdata : data.length ≤ 333) (otpp otpn readType : BitVec 32) :
    clientEndReadGammaReport channel data otpp otpn readType = some
      ⟨0x203B, [.int "channel" channel, .string "data" (Server.GammaText.hexText data),
        .int "otpp" otpp, .int "otpn" otpn, .int "read_type" readType], 0, false⟩ := by
  obtain ⟨strData, hstr, htext⟩ := cstr_clientEndReadGamma hdata
  rw [clientEndReadGammaReport, hstr, ← htext]
  rfl

theorem clientEndRealtimeControl_eq (channel : BitVec 32) {data : List Byte}
    (hdata : data.length ≤ 333) : clientEndRealtimeControl channel data = some
      ⟨0x203D, [.int "channel" channel, .string "data" (Server.GammaText.hexText data)], 0,
        false⟩ := by
  obtain ⟨strData, hstr, htext⟩ := cstr_clientEndReadGamma hdata
  rw [clientEndRealtimeControl, hstr, ← htext]
  rfl

theorem clientLcdReadRegAck_eq (channel : BitVec 32) {data : List Byte}
    (hdata : data.length ≤ 655) : clientLcdReadRegAck channel data = some
      ⟨0x2040, [.int "channel" channel, .string "read_data" (lcdText data)], 0, false⟩ := by
  obtain ⟨zeros, hstr⟩ := lcdStrData_text hdata
  have htext := cstr_append (plain_lcdText data) zeros
  rw [clientLcdReadRegAck, hstr, Option.bind_eq_bind, Option.bind_some, htext]

/-- A version of at most four numbers fits 32 bytes. -/
theorem fits_dotted {ns : List Nat} (h : ∀ n ∈ ns, n < 256) (hlen : ns.length ≤ 4) :
    fits 32 (dotted ns) = some (dotted ns) := by
  have hle := length_dotted_le fun n hn => (h n hn).trans (by decide)
  exact fits_of_le (by omega)

theorem toNat_and_lt (v : BitVec 32) {m : Nat} (hm : m < 256) :
    (v &&& BitVec.ofNat 32 m).toNat < 256 := by
  rw [BitVec.toNat_and, BitVec.toNat_ofNat]
  exact (Nat.and_le_right.trans (Nat.mod_le _ _)).trans_lt hm

/-- The versions of `client_register_ex`. -/
theorem clientRegisterEx_eq (fpga box power : BitVec 32) {buildTime : List Byte}
    (hbuild : buildTime.length ≤ 31) : ∃ a f b p, clientRegisterEx fpga box power buildTime = some
      ⟨0x200A, [.string "arm_ver" (dotted a), .string "fpga_ver" (dotted f),
        .string "box_ver" (dotted b), .string "power_ver" (dotted p),
        .string "build_time" buildTime, .string "soft_desc" (ascii "Release: "),
        .string "ic_list" (ascii "OTM8019A, ILI9806E, ICN9706."),
        .string "hard_model" (ascii "ETS-1011"), .string "hard_ver" (ascii "1.0.0"),
        .string "SN" (ascii "0000-0000-000000")], 0, false⟩ ∧
      (dotted a).length ≤ 16 ∧ (dotted f).length ≤ 16 ∧ (dotted b).length ≤ 16 ∧
      (dotted p).length ≤ 16 := by
  have hparts : ∀ {ns : List Nat}, (∀ n ∈ ns, n < 256) → ns.length ≤ 4 →
      (dotted ns).length ≤ 16 := fun h hlen => by
    have hle := length_dotted_le fun n hn => (h n hn).trans (by decide)
    omega
  -- every part of a version is masked to a byte, or to half of one
  have hpart : ∀ (v : BitVec 32) (k m : Nat), m < 256 →
      ((v >>> k) &&& BitVec.ofNat 32 m).toNat < 256 := fun v k m hm => toNat_and_lt (v >>> k) hm
  have hthree : ∀ v : BitVec 32, ∀ n ∈ [((v >>> 16) &&& BitVec.ofNat 32 0xff).toNat,
      ((v >>> 8) &&& BitVec.ofNat 32 0xff).toNat, ((v >>> 0) &&& BitVec.ofNat 32 0xff).toNat],
      n < 256 := fun v => List.forall_mem_cons.mpr ⟨hpart v 16 0xff (by decide),
    List.forall_mem_cons.mpr ⟨hpart v 8 0xff (by decide),
      List.forall_mem_singleton.mpr (hpart v 0 0xff (by decide))⟩⟩
  have hfour : ∀ v : BitVec 32, ∀ n ∈ [((v >>> 12) &&& BitVec.ofNat 32 0xf).toNat,
      ((v >>> 8) &&& BitVec.ofNat 32 0xf).toNat, ((v >>> 4) &&& BitVec.ofNat 32 0xf).toNat,
      ((v >>> 0) &&& BitVec.ofNat 32 0xf).toNat], n < 256 := fun v =>
    List.forall_mem_cons.mpr ⟨hpart v 12 0xf (by decide), List.forall_mem_cons.mpr
      ⟨hpart v 8 0xf (by decide), List.forall_mem_cons.mpr ⟨hpart v 4 0xf (by decide),
        List.forall_mem_singleton.mpr (hpart v 0 0xf (by decide))⟩⟩⟩
  have harm : ∀ n ∈ [0, 0, 2], n < 256 := by decide
  refine ⟨_, _, _, _, ?_, hparts harm (by decide), hparts (hfour fpga) le_rfl,
    hparts (hthree box) (Nat.le_succ 3), hparts (hthree power) (Nat.le_succ 3)⟩
  rw [clientRegisterEx]
  dsimp only
  rw [fits_dotted harm (by decide), fits_dotted (hfour fpga) le_rfl,
    fits_dotted (hthree box) (Nat.le_succ 3), fits_dotted (hthree power) (Nat.le_succ 3),
    fits_of_le (Nat.succ_le_succ hbuild)]
  rfl

/-! ## Every call -/

/-- The keys are different but for their case, and short. -/
def KeysOk (keys : List String) : Prop :=
  (keys.map ascii).Pairwise (fun s t => sameName s t = false) ∧ ∀ key ∈ keys, KeyOk key

instance instDecidableKeysOk (keys : List String) : Decidable (KeysOk keys) :=
  inferInstanceAs (Decidable (_ ∧ _))

/-- A report with the keys of another one. -/
theorem Report.Sound.of_like {r : Report} (like : Report)
    (heq : r.fields.map Field.key = like.fields.map Field.key)
    (hkeys : KeysOk (like.fields.map Field.key)) (hfields : ∀ f ∈ r.fields, f.Sound)
    (hwidth : (r.fields.map Field.width).sum ≤ 20000) : r.Sound where
  names := by
    have hnames : r.fields.map Field.name = (like.fields.map Field.key).map ascii := by
      rw [← heq, List.map_map]
      rfl
    rw [hnames]
    exact hkeys.1
  keys := heq ▸ hkeys.2
  fields := hfields
  short := hwidth

/-- No voltage and no current. -/
def Rail.off : Rail := ⟨0, 0, 0, 0, 0, 0⟩

/-- **Every call is sound**, if it fits. -/
theorem Call.report_sound {c : Call} (hc : c.Fits) : ∃ r, c.report = some r ∧ r.Sound := by
  -- each report is compared with one of the same shape whose fields are empty: its names are
  -- checked there once, and only what the call puts in is left
  cases c with
  | register syncInfo pSoftVer pHardVer pgCode =>
    obtain ⟨hsoft, hhard, hcode, hlen⟩ := hc
    refine ⟨_, rfl, .of_like (clientRegister ⟨0, 0⟩ [] [] []) rfl (by decide +kernel) ?_ ?_⟩
    · simp [clientRegister, hsoft, hhard, hcode]
    · simp [clientRegister]
      omega
  | registerEx fpga box power buildTime =>
    obtain ⟨hbuild, hlen⟩ := hc
    obtain ⟨a, f, b, p, heq, ha, hf, hb, hp⟩ := clientRegisterEx_eq fpga box power hlen
    have hdesc : Plain (ascii "Release: ") ∧ Plain (ascii "OTM8019A, ILI9806E, ICN9706.") ∧
        Plain (ascii "ETS-1011") ∧ Plain (ascii "1.0.0") ∧ Plain (ascii "0000-0000-000000") := by
      decide +kernel
    refine ⟨_, heq, .of_like ⟨0x200A, [.string "arm_ver" [], .string "fpga_ver" [],
      .string "box_ver" [], .string "power_ver" [], .string "build_time" [],
      .string "soft_desc" [], .string "ic_list" [], .string "hard_model" [],
      .string "hard_ver" [], .string "SN" []], 0, false⟩ rfl (by decide +kernel) ?_ ?_⟩
    · simp [plain_dotted, hbuild, hdesc]
    · simp [ascii]
      omega
  | getFile pFileName infoSet =>
    obtain ⟨hname, hlen⟩ := hc
    refine ⟨_, rfl, .of_like (clientGetFile [] 0) rfl (by decide +kernel) ?_ ?_⟩
    · simp [clientGetFile, hname]
    · simp [clientGetFile]
      omega
  | endReadGamma channel data otpp otpn type =>
    have hc : data.length ≤ 333 := hc
    refine ⟨_, clientEndReadGammaReport_eq channel hc otpp otpn type, .of_like
      ⟨0x203B, [.int "channel" 0, .string "data" [], .int "otpp" 0, .int "otpn" 0,
        .int "read_type" 0], 0, false⟩ rfl (by decide +kernel) ?_ ?_⟩
    · have hplain : Plain (Server.GammaText.hexText data) := Server.GammaText.hexText_plain data
      simp [hplain]
    · simp [Server.GammaText.length_hexText]
      omega
  | endGammaOtp channel msg =>
    obtain ⟨hmsg, hlen⟩ := hc
    refine ⟨_, rfl, .of_like (clientEndGammaOtp 0 []) rfl (by decide +kernel) ?_ ?_⟩
    · simp [clientEndGammaOtp, hmsg]
    · simp [clientEndGammaOtp]
      omega
  | endRealtimeControl channel data =>
    have hc : data.length ≤ 333 := hc
    refine ⟨_, clientEndRealtimeControl_eq channel hc, .of_like
      ⟨0x203D, [.int "channel" 0, .string "data" []], 0, false⟩ rfl (by decide +kernel) ?_ ?_⟩
    · have hplain : Plain (Server.GammaText.hexText data) := Server.GammaText.hexText_plain data
      simp [hplain]
    · simp [Server.GammaText.length_hexText]
      omega
  | notifyMsg flag pMsg =>
    cases pMsg with
    | none =>
      refine ⟨_, rfl, .of_like (clientNotifyMsg 0 none) rfl (by decide +kernel) ?_ ?_⟩
      · simp [clientNotifyMsg]
        decide
      · simp [clientNotifyMsg, ascii]
    | some msg =>
      obtain ⟨hmsg, hlen⟩ := hc msg rfl
      refine ⟨_, rfl, .of_like (clientNotifyMsg 0 none) rfl (by decide +kernel) ?_ ?_⟩
      · simp [clientNotifyMsg, hmsg]
      · simp [clientNotifyMsg]
        omega
  | sendPowerVersion channel version =>
    obtain ⟨hchannel, hversion⟩ := hc
    refine ⟨_, rfl, .of_like (clientSendPowerVersion 0 0) rfl (by decide +kernel) ?_ ?_⟩
    · simp [clientSendPowerVersion]
      omega
    · simp [clientSendPowerVersion]
  | sendBoxVersion channel version =>
    obtain ⟨hchannel, hversion⟩ := hc
    refine ⟨_, rfl, .of_like (clientSendBoxVersion 0 0) rfl (by decide +kernel) ?_ ?_⟩
    · simp [clientSendBoxVersion]
      omega
    · simp [clientSendBoxVersion]
  | lcdReadRegAck channel data =>
    have hc : data.length ≤ 655 := hc
    have hlen : (lcdText data).length ≤ _ := length_lcdPieces data 0
    refine ⟨_, clientLcdReadRegAck_eq channel hc, .of_like
      ⟨0x2040, [.int "channel" 0, .string "read_data" []], 0, false⟩ rfl (by decide +kernel) ?_ ?_⟩
    · simp [plain_lcdText data]
    · simp
      omega
  | readCabcEnd channel freq duty =>
    refine ⟨_, rfl, .of_like (clientSendGenCmdAckReadCabcEnd 0 0 0) rfl (by decide +kernel) ?_ ?_⟩
    · simp [clientSendGenCmdAckReadCabcEnd]
      decide
    · simp [clientSendGenCmdAckReadCabcEnd, ascii]
  | readLcdIdNotify channel data times =>
    have hc : data.length ≤ 32 := hc
    have hbytes : ∀ n ∈ data.map fun b => (b.toNat : Int), -2147483648 ≤ n ∧ n ≤ 2147483647 := by
      intro n hn
      obtain ⟨b, -, rfl⟩ := List.mem_map.mp hn
      have hb := b.isLt
      constructor <;> omega
    refine ⟨_, if_pos hc, .of_like ⟨0x2080, [.number "gen_cmd_id" 0, .string "gen_cmd_tag" [],
      .int "channel" 0, .ints "id_array" [], .uchar "otp_times" 0], 0, false⟩ rfl
      (by decide +kernel) ?_ ?_⟩
    · simp only [List.forall_mem_cons, Field.sound_number, Field.sound_string, Field.sound_int,
        Field.sound_uchar]
      exact ⟨by decide, by decide, trivial, hbytes, trivial, List.forall_mem_nil _⟩
    · simp [Field.width, ascii, Field.int, Field.uchar]
      omega
  | syncStatu syncInfo =>
    refine ⟨_, rfl, .of_like (clientSyncStatu ⟨0, 0⟩) rfl (by decide +kernel) ?_ ?_⟩ <;>
      simp [clientSyncStatu]
  | sendVcom channel vcom otp flick =>
    refine ⟨_, rfl, .of_like (clientSendVcom 0 0 0 0) rfl (by decide +kernel) ?_ ?_⟩ <;>
      simp [clientSendVcom]
  | sendOtp channel result times =>
    refine ⟨_, rfl, .of_like (clientSendOtp 0 0 0) rfl (by decide +kernel) ?_ ?_⟩ <;>
      simp [clientSendOtp]
  | sendIdOtpEnd channel result times =>
    refine ⟨_, rfl, .of_like (clientSendIdOtpEnd 0 0 0) rfl (by decide +kernel) ?_ ?_⟩ <;>
      simp [clientSendIdOtpEnd]
  | endGammaWrite channel type =>
    refine ⟨_, rfl, .of_like (clientEndGammaWrite 0 0) rfl (by decide +kernel) ?_ ?_⟩ <;>
      simp [clientEndGammaWrite]
  | endFirmwareUpgrade type state =>
    refine ⟨_, rfl, .of_like (clientEndFirmwareUpgrade 0 0) rfl (by decide +kernel) ?_ ?_⟩ <;>
      simp [clientEndFirmwareUpgrade]
  | sendPower channel pwrInfo =>
    refine ⟨_, rfl, .of_like (clientSendPower 0 ⟨.off, .off, .off, .off, 0, 0, .off, .off, .off⟩) rfl
      (by decide +kernel) ?_ ?_⟩ <;> simp [clientSendPower]
  | sendReg addr value =>
    refine ⟨_, rfl, .of_like (clientSendReg 0 0) rfl (by decide +kernel) ?_ ?_⟩ <;>
      simp [clientSendReg]
  | sendRegStatus addr statu =>
    refine ⟨_, rfl, .of_like (clientSendRegStatus 0 0) rfl (by decide +kernel) ?_ ?_⟩ <;>
      simp [clientSendRegStatus]
  | rebackPower powerOn =>
    refine ⟨_, rfl, .of_like (clientRebackPower 0) rfl (by decide +kernel) ?_ ?_⟩ <;>
      simp [clientRebackPower]
  | rebackError errorNo =>
    refine ⟨_, rfl, .of_like (clientRebackError 0) rfl (by decide +kernel) ?_ ?_⟩ <;>
      simp [clientRebackError]
  | rebackFlick flick polar =>
    refine ⟨_, rfl, .of_like (clientRebackFlick 0 0) rfl (by decide +kernel) ?_ ?_⟩ <;>
      simp [clientRebackFlick]
  | rebackautoFlick channel index flick =>
    refine ⟨_, rfl, .of_like (clientRebackautoFlick 0 0 0) rfl (by decide +kernel) ?_ ?_⟩ <;>
      simp [clientRebackautoFlick]
  | rebackFlickOver channel vcom flick =>
    refine ⟨_, rfl, .of_like (clientRebackFlickOver 0 0 0) rfl (by decide +kernel) ?_ ?_⟩ <;>
      simp [clientRebackFlickOver]
  | readOpenShortModeAck mode =>
    refine ⟨_, rfl, .of_like (clientPowerTestReadOpenShortModeAck 0) rfl
      (by decide +kernel) ?_ ?_⟩ <;> simp [clientPowerTestReadOpenShortModeAck]
  | readVcomVoltAck volt =>
    refine ⟨_, rfl, .of_like (clientPowerTestReadVcomVoltAck 0) rfl (by decide +kernel) ?_ ?_⟩ <;>
      simp [clientPowerTestReadVcomVoltAck]
  | readVcomStatusAck status =>
    refine ⟨_, rfl, .of_like (clientPowerTestReadVcomStatusAck 0) rfl (by decide +kernel) ?_ ?_⟩ <;>
      simp [clientPowerTestReadVcomStatusAck]
  | readOtpVoltAck volt =>
    refine ⟨_, rfl, .of_like (clientPowerTestReadOtpVoltAck 0) rfl (by decide +kernel) ?_ ?_⟩ <;>
      simp [clientPowerTestReadOtpVoltAck]
  | readOtpStatusAck status =>
    refine ⟨_, rfl, .of_like (clientPowerTestReadOtpStatusAck 0) rfl (by decide +kernel) ?_ ?_⟩ <;>
      simp [clientPowerTestReadOtpStatusAck]
  | readOpenShortAck openShort =>
    refine ⟨_, rfl, .of_like (clientPowerTestReadOpenShortAck 0) rfl (by decide +kernel) ?_ ?_⟩ <;>
      simp [clientPowerTestReadOpenShortAck]
  | readNtcAgAck ntcAg =>
    refine ⟨_, rfl, .of_like (clientPowerTestReadNtcAgAck 0) rfl (by decide +kernel) ?_ ?_⟩ <;>
      simp [clientPowerTestReadNtcAgAck]
  | gpioGetStateAck index pin dir value =>
    refine ⟨_, rfl, .of_like (clientGpioGetStateAck 0 0 0 0) rfl (by decide +kernel) ?_ ?_⟩ <;>
      simp [clientGpioGetStateAck]

/-! ## Over the stream -/

/-- What the calls put on the wire, one after another. -/
def sendCalls (sendFd : Int) (calls : List Call) : Option (List Byte) :=
  (calls.mapM fun c : Call => c.report.bind (Report.send sendFd)).map List.flatten

/-- The command that a call arrives as. -/
def Arrives (c : Call) (cmd : SocketCmd) : Prop := ∃ r, c.report = some r ∧ r.Reads cmd

/-- A call and the report it makes. -/
def Makes (c : Call) (r : Report) : Prop := c.report = some r ∧ r.Sound

/-- The reports of calls that fit. -/
theorem exists_reports {calls : List Call} (hfits : ∀ c ∈ calls, c.Fits) :
    ∃ reports, List.Forall₂ Makes calls reports ∧ ∀ r ∈ reports, r.Sound := by
  induction calls with
  | nil => exact ⟨[], .nil, List.forall_mem_nil _⟩
  | cons c calls ih =>
    obtain ⟨hc, hrest⟩ := List.forall_mem_cons.mp hfits
    obtain ⟨r, hr, hsound⟩ := Call.report_sound hc
    obtain ⟨reports, hall, hsounds⟩ := ih hrest
    exact ⟨r :: reports, .cons ⟨hr, hsound⟩ hall, List.forall_mem_cons.mpr ⟨hsound, hsounds⟩⟩

theorem sendCalls_nil (sendFd : Int) : sendCalls sendFd [] = some [] := rfl

theorem sendCalls_eq {sendFd : Int} (hfd : sendFd ≠ -1) {calls : List Call} {reports : List Report}
    (h : List.Forall₂ Makes calls reports) :
    sendCalls sendFd calls = some (streamBytes ((reports.map Report.msg).flatMap Msg.frags)) := by
  induction h with
  | nil => exact sendCalls_nil sendFd
  | cons hr hall ih =>
    rw [sendCalls, Option.map_eq_some_iff] at ih
    obtain ⟨frames, hframes, hflat⟩ := ih
    rw [sendCalls, List.mapM_cons, hr.1, Option.bind_some, hr.2.send_eq hfd, hframes]
    simp [streamBytes, hflat]

/-- On an invalid socket nothing is sent. -/
theorem sendCalls_invalid {calls : List Call} {bs : List Byte} (h : sendCalls (-1) calls = some bs) :
    calls = [] := by
  cases calls with
  | nil => rfl
  | cons c calls =>
    -- no report is sent without a connection, whatever it holds
    have hsend : c.report.bind (Report.send (-1)) = none := by
      cases c.report with
      | none => rfl
      | some r =>
        rw [Option.bind_some, Report.send]
        cases r.payload <;> rfl
    simp [sendCalls, hsend] at h

theorem arrives_all {calls : List Call} {reports : List Report}
    (h : List.Forall₂ Makes calls reports) :
    List.Forall₂ Arrives calls ((reports.map Report.msg).map Msg.delivery) := by
  induction h with
  | nil => exact .nil
  | cons hr hall ih => exact .cons ⟨_, hr.1, hr.2.reads⟩ ih

/-- What the calls make arrives at the other end, in order. -/
theorem delivered {s : SocketCmdClass} (hs : Idle s) {calls : List Call}
    (hfits : ∀ c ∈ calls, c.Fits) {chunks : List (List Byte)}
    (hchunks : ∀ c ∈ chunks, c.length ≤ fifoMaxLen / 2) {sendFd : Int}
    (hsent : sendCalls sendFd calls = some chunks.flatten) :
    ∃ s' cmds, serverConnection s chunks = some ⟨s', cmds, true⟩ ∧
      List.Forall₂ Arrives calls cmds := by
  obtain ⟨reports, hall, hsounds⟩ := exists_reports hfits
  have hshort : ∀ m ∈ reports.map Report.msg, m.Short := by
    intro m hm
    obtain ⟨r, hr, rfl⟩ := List.mem_map.mp hm
    exact (hsounds r hr).msg_short
  -- without a connection nothing was sent, and there was no call
  have hbytes : chunks.flatten = streamBytes ((reports.map Report.msg).flatMap Msg.frags) := by
    by_cases hfd : sendFd = -1
    · rw [hfd] at hsent
      obtain rfl := sendCalls_invalid hsent
      cases hall
      rw [sendCalls_nil] at hsent
      exact (Option.some.inj hsent).symm
    · rw [sendCalls_eq hfd hall] at hsent
      exact (Option.some.inj hsent).symm
  obtain ⟨s', hconn⟩ := serverConnection_msgs hs hshort hchunks hbytes
  exact ⟨s', _, hconn, arrives_all hall⟩

/-- **Every report arrives**: from an idle class, for all calls that fit, one after another, and
for all ways of cutting what they send into chunks, the receiver delivers one command for each
call, in order, and `cJSON_Parse` and `cJSON_GetObjectItem` find in it every value that was
reported. -/
theorem calls_delivered {s : SocketCmdClass} (hs : Idle s) {calls : List Call}
    (hfits : ∀ c ∈ calls, c.Fits) {chunks : List (List Byte)}
    (hchunks : ∀ c ∈ chunks, c ≠ [] ∧ c.length ≤ fifoMaxLen / 2) {sendFd : Int}
    (hsent : sendCalls sendFd calls = some chunks.flatten) :
    ∃ s' cmds, serverConnection s chunks = some ⟨s', cmds, true⟩ ∧
      List.Forall₂ Arrives calls cmds :=
  delivered hs hfits (fun c hc => (hchunks c hc).2) hsent

/-- The bytes of reports, with a cut in the header of each. -/
def inPieces (reports : List Report) : List (List Byte) :=
  reports.flatMap fun r => [(streamBytes r.msg.frags).take 5, (streamBytes r.msg.frags).drop 5]

/-- The pieces are neither empty nor too long for half the FIFO. -/
theorem inPieces_short {reports : List Report} (h : ∀ r ∈ reports, r.Sound) :
    ∀ c ∈ inPieces reports, c ≠ [] ∧ c.length ≤ fifoMaxLen / 2 := by
  intro c hc
  obtain ⟨r, hr, hc⟩ := List.mem_flatMap.mp hc
  exact (h r hr).pieces c hc

/-- They are the stream, cut. -/
theorem flatten_inPieces (reports : List Report) :
    (inPieces reports).flatten = streamBytes ((reports.map Report.msg).flatMap Msg.frags) := by
  induction reports with
  | nil => rfl
  | cons r reports ih =>
    rw [inPieces, List.flatMap_cons, List.flatten_append, ← inPieces, ih]
    simp [streamBytes]

/-- They are what the calls send. -/
theorem sendCalls_inPieces {calls : List Call} {reports : List Report}
    (h : List.Forall₂ Makes calls reports) :
    sendCalls 3 calls = some (inPieces reports).flatten := by
  rw [sendCalls_eq (by decide) h, flatten_inPieces]

/-- A VCOM and a notice behind it, each cut in its header. -/
theorem calls_delivered_vcom :
    let calls := [Call.sendVcom 1 90 1 5, .notifyMsg 2 (some (ascii "no probe"))]
    ∃ chunks s' cmds, sendCalls 3 calls = some chunks.flatten ∧ chunks.length = 4 ∧
      serverConnection bootClass chunks = some ⟨s', cmds, true⟩ ∧
      List.Forall₂ Arrives calls cmds := by
  intro calls
  have hfits : ∀ c ∈ calls, c.Fits := by
    rw [List.forall_mem_cons, List.forall_mem_singleton]
    refine ⟨trivial, fun msg hmsg => ?_⟩
    cases hmsg
    exact ⟨by decide, by decide⟩
  obtain ⟨reports, hmakes, hsound⟩ := exists_reports hfits
  have hsent := sendCalls_inPieces hmakes
  obtain ⟨s', cmds, hconn, harrive⟩ :=
    calls_delivered idle_bootClass hfits (inPieces_short hsound) hsent
  refine ⟨inPieces reports, s', cmds, hsent, ?_, hconn, harrive⟩
  -- two reports, cut in two each
  obtain ⟨r, rest, -, hrest, rfl⟩ := List.forall₂_cons_left_iff.mp hmakes
  obtain ⟨r', rest', -, hnil, rfl⟩ := List.forall₂_cons_left_iff.mp hrest
  obtain rfl := List.forall₂_nil_left_iff.mp hnil
  rfl

/-- **A block of registers comes back**: the text of a report of `client_end_read_gamma`, taken out
of the command that is delivered, is read by `parse_gamma_reg_data` as the block. -/
theorem readGamma_returned {s : SocketCmdClass} (hs : Idle s) {before after : List Call}
    {channel otpp otpn readType : BitVec 32} {data : List Byte}
    (hfits : ∀ c ∈ before ++ .endReadGamma channel data otpp otpn readType :: after, c.Fits)
    {chunks : List (List Byte)} (hchunks : ∀ c ∈ chunks, c ≠ [] ∧ c.length ≤ fifoMaxLen / 2)
    {sendFd : Int} (hsent : sendCalls sendFd
      (before ++ .endReadGamma channel data otpp otpn readType :: after) = some chunks.flatten) :
    ∃ s' cmds cmd, serverConnection s chunks = some ⟨s', cmds, true⟩ ∧
      cmds[before.length]? = some cmd ∧ ∀ stack ≥ 3, ∃ root rest text,
        cJSONParse stack cmd.pcmd = .ok root rest ∧
        root.getObjectItem (ascii "data") = some (.string text) ∧
        ∀ tail buf : List Byte, data.length ≤ buf.length →
          Server.GammaText.parseGammaRegData (some (text ++ 0 :: tail)) buf =
            some (data.length, data ++ buf.drop data.length) := by
  obtain ⟨s', cmds, hconn, hall⟩ := delivered hs hfits (fun c hc => (hchunks c hc).2) hsent
  have hdata : data.length ≤ 333 := hfits _ (List.mem_append_right _ List.mem_cons_self)
  obtain ⟨hlen, hget⟩ := List.forall₂_iff_get.mp hall
  -- the command at the place of the call is the one that arrived from it
  have hcall : before.length <
      (before ++ .endReadGamma channel data otpp otpn readType :: after).length := by
    rw [List.length_append, List.length_cons]
    omega
  have hcmd : before.length < cmds.length := hlen ▸ hcall
  obtain ⟨r, hr, -, -, -, hreads⟩ := hget before.length hcall hcmd
  have hnow : (before ++ .endReadGamma channel data otpp otpn readType :: after).get
      ⟨before.length, hcall⟩ = .endReadGamma channel data otpp otpn readType := by simp
  rw [hnow, Call.report, clientEndReadGammaReport_eq channel hdata, Option.some.injEq] at hr
  refine ⟨s', cmds, cmds.get ⟨before.length, hcmd⟩, hconn, List.getElem?_eq_getElem hcmd,
    fun stack hstack => ?_⟩
  obtain ⟨root, rest, hparse, hfields⟩ := hreads stack hstack
  rw [← hr] at hfields
  refine ⟨root, rest, Server.GammaText.hexText data, hparse, ?_, fun tail buf hroom => ?_⟩
  · exact hfields (.string "data" (Server.GammaText.hexText data)) (by simp) _ (sameName_self _)
  · have hback := Server.GammaText.parseLoop_hexText tail data [] buf hroom
    rwa [List.nil_append, List.nil_append, List.length_nil, Nat.zero_add] at hback

/-- Two registers, behind a VCOM. -/
theorem readGamma_returned_two :
    ∃ chunks s' cmds cmd, sendCalls 3 [.sendVcom 1 90 1 5, .endReadGamma 1 [0x0a, 0xf3] 0 0 2] =
        some chunks.flatten ∧ serverConnection bootClass chunks = some ⟨s', cmds, true⟩ ∧
      cmds[1]? = some cmd ∧ ∀ stack ≥ 3, ∃ root rest text,
        cJSONParse stack cmd.pcmd = .ok root rest ∧
        root.getObjectItem (ascii "data") = some (.string text) ∧
        ∀ tail buf : List Byte, 2 ≤ buf.length →
          Server.GammaText.parseGammaRegData (some (text ++ 0 :: tail)) buf =
            some (2, [0x0a, 0xf3] ++ buf.drop 2) := by
  have hfits : ∀ c ∈ [Call.sendVcom 1 90 1 5] ++ .endReadGamma 1 [0x0a, 0xf3] 0 0 2 :: [],
      c.Fits := by
    rw [List.singleton_append, List.forall_mem_cons, List.forall_mem_singleton]
    exact ⟨trivial, show 2 ≤ 333 by decide⟩
  -- the report's stream in pieces, with the VCOM's in front
  obtain ⟨reports, hmakes, hsound⟩ := exists_reports hfits
  have hsent := sendCalls_inPieces hmakes
  obtain ⟨s', cmds, cmd, hread⟩ :=
    readGamma_returned idle_bootClass hfits (inPieces_short hsound) hsent
  exact ⟨inPieces reports, s', cmds, cmd, hsent, hread⟩

end PgClient.Client
