import PgClient.PackSocket.Transparency

/-!
# Interleaved reassembly

Messages with different commands may arrive interleaved. `Reach` is any
sequence of calls of `recvSocketCmd` and `parseSocketCmd` on the stream, and
`Reassembled` what should hold after each: every message delivered once, when
its last fragment is parsed, and exactly the fragments of the other messages
left in the list.

`_destoryRecvList2` cuts the list when a finished message has a fragment
between two fragments of other messages, and everything behind the cut is lost.
`reassembled_of_uncut` is the property for streams where this never happens
(`Uncut`); `crossed_not_reassembled` is a stream where it does.
-/

namespace PgClient.PackSocket

/-! ## Interleavings -/

/-- `frags` is an interleaving of the fragments of `msgs`. -/
structure Interleaving (msgs : List Msg) (frags : List Frag) : Prop where
  cmds : (msgs.map Msg.cmd).Nodup
  own : ∀ m ∈ msgs, (frags.filter fun f => f.cmd = m.cmd) = m.frags
  all : ∀ f ∈ frags, ∃ m ∈ msgs, f.cmd = m.cmd

/-- No fragment parsed so far is the last one of its message. -/
def Unfinished (done : List Frag) (f : Frag) : Prop :=
  ∀ g ∈ done, g.cmd = f.cmd → g.curNo ≠ g.lastNo

instance (done : List Frag) (f : Frag) : Decidable (Unfinished done f) :=
  inferInstanceAs (Decidable (∀ _ ∈ _, _))

/-- The parsed fragments of messages that are not finished, in arrival order. -/
def pendingFrags (done : List Frag) : List Frag := done.filter fun f => Unfinished done f

/-- The message `f` finishes, if it is a last fragment. -/
def finishedBy (msgs : List Msg) (f : Frag) : Option SocketCmd :=
  if f.curNo = f.lastNo then (msgs.find? fun m => m.cmd = f.cmd).map Msg.delivery else none

/-- The messages finished by the fragments, each with the number of stream bytes
up to the end of its last fragment. -/
def finished (msgs : List Msg) : Nat → List Frag → List (SocketCmd × Nat)
  | _, [] => []
  | n, f :: fs =>
    ((finishedBy msgs f).map fun d => (d, n + f.bytes.length)).toList ++
      finished msgs (n + f.bytes.length) fs

/-- No release ever cuts the list: when a message is finished, no fragment of it
lies between two pending fragments of other messages. -/
def Uncut (frags : List Frag) : Prop :=
  ∀ k, k < frags.length → ∀ f ∈ frags[k]?, f.curNo = f.lastNo →
    cuts f.cmd ((pendingFrags (frags.take k) ++ [f]).map Frag.info) = false

instance (frags : List Frag) : Decidable (Uncut frags) :=
  inferInstanceAs (Decidable (∀ k, k < _ → ∀ _ ∈ _, _ → _))

/-! ## Runs -/

/-- How many of the bytes fed have been parsed. -/
def parsedBytes (fed : List Byte) (s : SocketCmdClass) : Nat :=
  fed.length - (initCmdFifo s).cmdFifo.len

/-- The states of a class while the stream is fed and parsed: `fed` is what
`recvSocketCmd` has stored, and `log` the messages delivered, each with the
number of bytes parsed by then. -/
inductive Reach (s₀ : SocketCmdClass) (stream : List Byte) :
    SocketCmdClass → List Byte → List (SocketCmd × Nat) → Prop
  | start : Reach s₀ stream s₀ [] []
  | recv {s s' : SocketCmdClass} {fed chunk : List Byte} {log : List (SocketCmd × Nat)}
      (hreach : Reach s₀ stream s fed log) (hrecv : recvSocketCmd s chunk = (s', true))
      (hfed : fed ++ chunk <+: stream) : Reach s₀ stream s' (fed ++ chunk) log
  | parse {s s' : SocketCmdClass} {fed : List Byte} {log : List (SocketCmd × Nat)}
      {d : Option SocketCmd} (hreach : Reach s₀ stream s fed log)
      (hparse : parseSocketCmd s = some (s', d)) :
      Reach s₀ stream s' fed (log ++ (d.map fun cmd => (cmd, parsedBytes fed s')).toList)

/-- What should hold of a state of the run. -/
structure Reassembled (msgs : List Msg) (frags : List Frag) (s : SocketCmdClass)
    (fed : List Byte) (log : List (SocketCmd × Nat)) : Prop where
  /-- No released node is read or written. -/
  defined : parseSocketCmd s ≠ none
  /-- Some fragments have been parsed; the messages they finish were delivered,
  each when its last fragment was parsed, and the list holds the other ones. -/
  parsed : ∃ k, (streamBytes (frags.take k)).length = parsedBytes fed s ∧
    log = finished msgs 0 (frags.take k) ∧
    Held (initCmdFifo s).gstRecvSocketCmdList ((pendingFrags (frags.take k)).map Frag.info) false
  /-- In the end every message was delivered, once. -/
  complete : fed = streamBytes frags → ∀ s', parseSocketCmd s = some (s', none) →
    (log.map Prod.fst).Perm (msgs.map Msg.delivery)

/-- What finishes in a stream finishes in its first part, or in its second as counted from there. -/
theorem finished_append (msgs : List Msg) (n : Nat) (fs gs : List Frag) :
    finished msgs n (fs ++ gs) =
      finished msgs n fs ++ finished msgs (n + (streamBytes fs).length) gs := by
  induction fs generalizing n with
  | nil => simp [finished]
  | cons f fs ih =>
    simp only [List.cons_append, finished, ih, streamBytes_cons, List.length_append,
      List.append_assoc, Nat.add_assoc]

/-- Without the counts, `finished` is the deliveries of the fragments that end a message. -/
theorem map_fst_finished (msgs : List Msg) (n : Nat) (fs : List Frag) :
    (finished msgs n fs).map Prod.fst = fs.filterMap (finishedBy msgs) := by
  induction fs generalizing n with
  | nil => rfl
  | cons f fs ih =>
    rw [finished, List.map_append, ih, List.filterMap_cons]
    cases finishedBy msgs f <;> rfl

/-! ## The pending fragments along an interleaving -/

section Interleaving

variable {msgs : List Msg} {frags : List Frag}

/-- Cut an interleaving at a fragment: it is the next one of its message. -/
theorem Interleaving.split (h : Interleaving msgs frags) {done rest : List Frag} {f : Frag}
    (hfrags : frags = done ++ f :: rest) :
    ∃ m ∈ msgs, ∃ j, (done.filter fun g => g.cmd = m.cmd) = m.frags.take j ∧
      m.frags[j]? = some f := by
  obtain ⟨m, hm, hcmd⟩ := h.all f (by simp [hfrags])
  have hown := h.own m hm
  rw [hfrags, List.filter_append, List.filter_cons_of_pos (by simpa using hcmd)] at hown
  refine ⟨m, hm, (done.filter fun g => g.cmd = m.cmd).length, ?_, ?_⟩
  · rw [← hown, List.take_left]
  · rw [← hown, List.getElem?_append_right (Nat.le_refl _), Nat.sub_self,
      List.getElem?_cons_zero]

/-- Before its next fragment, a message is unfinished. -/
theorem unfinished_of_split {m : Msg} {done : List Frag} {j : Nat} {f : Frag}
    (hdone : (done.filter fun g => g.cmd = m.cmd) = m.frags.take j)
    (hf : m.frags[j]? = some f) {g : Frag} (hg : g.cmd = m.cmd) : Unfinished done g := by
  intro g' hg' hcmd
  have hmem : g' ∈ m.frags.take j := by
    rw [← hdone]
    exact List.mem_filter.mpr ⟨hg', by simpa using hcmd.trans hg⟩
  obtain ⟨i, hi⟩ := List.getElem?_of_mem hmem
  -- the earlier fragments have numbers below `j`, and `j` is still to come
  have hij : i < j := by
    by_contra hge
    rw [List.getElem?_take, if_neg hge] at hi
    exact absurd hi (by simp)
  rw [List.getElem?_take, if_pos hij, Msg.frags_getElem?, Option.map_eq_some_iff] at hi
  obtain ⟨part, hpart, rfl⟩ := hi
  have hj := (List.getElem?_eq_some_iff.mp hf).1
  rw [m.frags_length] at hj
  intro heq
  have := (Msg.frag_curNo_eq_lastNo (by omega) part).mp heq
  omega

/-- In an interleaving the command identifies its message. -/
theorem find?_cmd (h : Interleaving msgs frags) {m : Msg} (hm : m ∈ msgs) :
    (msgs.find? fun m' => m'.cmd = m.cmd) = some m := by
  obtain ⟨m', hfind⟩ : ∃ m', (msgs.find? fun m' => m'.cmd = m.cmd) = some m' := by
    rw [← Option.isSome_iff_exists, List.find?_isSome]
    exact ⟨m, hm, by simp⟩
  have hcmd : m'.cmd = m.cmd := by simpa using List.find?_some hfind
  rw [hfind, Option.some.injEq]
  exact List.inj_on_of_nodup_map h.cmds (List.mem_of_find?_eq_some hfind) hm hcmd

/-- The last fragment of a message finishes it, and no other does. -/
theorem finishedBy_of_mem (h : Interleaving msgs frags) {m : Msg} (hm : m ∈ msgs) {j : Nat}
    {f : Frag} (hf : m.frags[j]? = some f) :
    finishedBy msgs f = if j + 1 = m.parts.length then some m.delivery else none := by
  have hj := (List.getElem?_eq_some_iff.mp hf).1
  rw [m.frags_length] at hj
  have hcmd := Msg.cmd_of_mem (List.mem_of_getElem? hf)
  rw [finishedBy, hcmd, find?_cmd h hm]
  rw [Msg.frags_getElem?, Option.map_eq_some_iff] at hf
  obtain ⟨part, -, rfl⟩ := hf
  simp only [Msg.frag_curNo_eq_lastNo hj part]
  rfl

/-- What the pending fragments become with one more fragment. -/
theorem pendingFrags_append (done : List Frag) {f : Frag} (hf : Unfinished done f) :
    pendingFrags (done ++ [f]) =
      if f.curNo = f.lastNo then (pendingFrags done).filter fun g => g.cmd ≠ f.cmd
      else pendingFrags done ++ [f] := by
  -- only the new fragment can finish what was unfinished
  have hiff : ∀ g, Unfinished (done ++ [f]) g ↔
      Unfinished done g ∧ (f.cmd = g.cmd → f.curNo ≠ f.lastNo) := by
    intro g
    simp [Unfinished, or_imp, forall_and]
  rw [pendingFrags, List.filter_append]
  split_ifs with hlast
  · rw [List.filter_cons_of_neg (by simpa [hiff] using fun _ => hlast), List.filter_nil,
      List.append_nil, pendingFrags, List.filter_filter]
    refine List.filter_congr fun g _ => ?_
    rw [eq_comm (a := decide _), ← Bool.decide_and, decide_eq_decide, hiff]
    constructor
    · rintro ⟨hne, hun⟩
      exact ⟨hun, fun h => absurd h.symm hne⟩
    · rintro ⟨hun, himp⟩
      exact ⟨fun h => himp h.symm hlast, hun⟩
  · rw [List.filter_cons_of_pos (by simpa [hiff] using ⟨hf, hlast⟩), List.filter_nil,
      pendingFrags]
    congr 1
    refine List.filter_congr fun g _ => ?_
    rw [decide_eq_decide, hiff]
    exact ⟨And.left, fun hun => ⟨hun, fun _ => hlast⟩⟩

/-- Filtering by command sees the fragment and its record alike. -/
theorem filter_ne_map_info (c : BitVec 16) (fs : List Frag) :
    ((fs.map Frag.info).filter fun i => i.cmd ≠ c) =
      (fs.filter fun f => f.cmd ≠ c).map Frag.info := by
  rw [List.filter_map]
  rfl

/-- **Absorbing an interleaving.** Along an uncut one the list holds exactly the
fragments of unfinished messages, and the finished ones have been delivered. -/
theorem absorbAll_interleaving (h : Interleaving msgs frags) (hfits : ∀ m ∈ msgs, m.Fits)
    (huncut : Uncut frags) {done rest : List Frag} (hfrags : frags = done ++ rest) :
    ∃ p, Pending.empty.absorbAll (done.map Frag.info) =
        some (p, done.filterMap (finishedBy msgs)) ∧
      p.frags = (pendingFrags done).map Frag.info ∧ p.severed = false := by
  -- on the fragments parsed, the newest last
  induction done using List.reverseRecOn generalizing rest with
  | nil => exact ⟨.empty, rfl, rfl, rfl⟩
  | append_singleton done f ih =>
    rw [List.append_assoc, List.singleton_append] at hfrags
    obtain ⟨p, habs, hpfrags, hsev⟩ := ih hfrags
    obtain ⟨m, hm, j, hdone, hf⟩ := h.split hfrags
    have hcmd : f.cmd = m.cmd := Msg.cmd_of_mem (List.mem_of_getElem? hf)
    have hun := fun {g : Frag} => unfinished_of_split hdone hf (g := g)
    have hholds : p.Holds m j := by
      rw [Pending.Holds, hpfrags, ← hdone, fragsOf, List.filter_map, pendingFrags,
        List.filter_filter]
      congr 1
      refine List.filter_congr fun g _ => ?_
      by_cases hg : g.cmd = m.cmd
      · have hg' : g.info.cmd = m.cmd := hg
        simp [hun hg, hg, hg']
      · have hg' : ¬ g.info.cmd = m.cmd := hg
        simp [hg, hg']
    have hby := finishedBy_of_mem h hm hf
    have hpending := pendingFrags_append done (hun hcmd)
    have hlastIff : f.curNo = f.lastNo ↔ j + 1 = m.parts.length := by
      have hj := (List.getElem?_eq_some_iff.mp hf).1
      rw [m.frags_length] at hj
      rw [Msg.frags_getElem?, Option.map_eq_some_iff] at hf
      obtain ⟨part, -, rfl⟩ := hf
      exact Msg.frag_curNo_eq_lastNo hj part
    have hstep : ∀ {p' d}, p.absorb f.info = some (p', d) → finishedBy msgs f = d →
        Pending.empty.absorbAll ((done ++ [f]).map Frag.info) =
          some (p', (done ++ [f]).filterMap (finishedBy msgs)) := by
      intro p' d habs' hd
      rw [List.map_append, Pending.absorbAll_append, habs, List.filterMap_append]
      cases d <;> simp [Pending.absorbAll, habs', hd]
    rcases Pending.absorb_frag hsev (hfits m hm) hholds hf with
      ⟨hlt, p', habs', hfrags', hsev'⟩ | ⟨hlast, p', habs', hfrags', hsev'⟩
    · rw [if_neg (by omega)] at hby
      rw [if_neg (by rw [hlastIff]; omega)] at hpending
      exact ⟨p', hstep habs' hby, by rw [hfrags', hpfrags, hpending, List.map_append]; rfl, hsev'⟩
    · rw [if_pos hlast] at hby
      rw [if_pos (hlastIff.mpr hlast)] at hpending
      -- the finished message lies at one end of the pending list
      have hcut : cuts m.cmd (p.frags ++ [f.info]) = false := by
        have := huncut done.length (by simp [hfrags]) f (by simp [hfrags])
          (hlastIff.mpr hlast)
        rwa [hfrags, List.take_left, List.map_append, ← hpfrags, hcmd] at this
      have hinfo : f.info.cmd = m.cmd := hcmd
      refine ⟨p', hstep habs' hby, ?_, hsev'.trans hcut⟩
      rw [hfrags', kept_eq_filter hcut, List.filter_append, hpfrags, filter_ne_map_info,
        hpending, hcmd, List.filter_cons_of_neg (by simpa using hinfo), List.filter_nil,
        List.append_nil]

/-- Only the fragment at the end of a message is a last one. -/
theorem frags_last_pairwise (m : Msg) :
    m.frags.Pairwise fun f _ => f.curNo ≠ f.lastNo := by
  rw [List.pairwise_iff_getElem]
  intro i j hi hj hij
  rw [m.frags_length] at hi hj
  obtain ⟨part, -, hpart⟩ := Option.map_eq_some_iff.mp
    ((m.frags_getElem? i).symm.trans (List.getElem?_eq_getElem (by rwa [m.frags_length])))
  rw [← hpart]
  intro heq
  have := (Msg.frag_curNo_eq_lastNo hi part).mp heq
  omega

/-- Two last fragments of one interleaving belong to different messages. -/
theorem Interleaving.last_pairwise (h : Interleaving msgs frags) :
    frags.Pairwise fun f g => f.curNo = f.lastNo → g.curNo = g.lastNo → f.cmd ≠ g.cmd := by
  rw [List.pairwise_iff_forall_sublist]
  intro f g hsub hf hg hcmd
  obtain ⟨m, hm, hgm⟩ := h.all g (hsub.subset (by simp))
  have hfm := hcmd.trans hgm
  -- both would be fragments of `m`, one before the other
  have hsub' : [f, g].Sublist m.frags := by
    have := hsub.filter fun f' => f'.cmd = m.cmd
    rwa [List.filter_cons_of_pos (by simpa using hfm),
      List.filter_cons_of_pos (by simpa using hgm), List.filter_nil, h.own m hm] at this
  exact List.pairwise_iff_forall_sublist.mp (frags_last_pairwise m) hsub' hf

/-- **Every message is finished once.** -/
theorem Interleaving.perm_finished (h : Interleaving msgs frags) :
    (frags.filterMap (finishedBy msgs)).Perm (msgs.map Msg.delivery) := by
  -- what a last fragment finishes carries its command
  have hby : ∀ {f d}, finishedBy msgs f = some d →
      f.curNo = f.lastNo ∧ d.cmd = f.cmd ∧ d ∈ msgs.map Msg.delivery := by
    intro f d hd
    rw [finishedBy] at hd
    split_ifs at hd with hlast
    obtain ⟨m, hfind, rfl⟩ := Option.map_eq_some_iff.mp hd
    have hcmd : m.cmd = f.cmd := by simpa using List.find?_some hfind
    exact ⟨hlast, hcmd, List.mem_map_of_mem (List.mem_of_find?_eq_some hfind)⟩
  -- both lists are without duplicates and have the same members
  refine (List.perm_ext_iff_of_nodup ?_ ?_).mpr fun d => ⟨fun hd => ?_, fun hd => ?_⟩
  · rw [List.Nodup, List.pairwise_filterMap]
    refine h.last_pairwise.imp fun hfg d hd d' hd' hdd => ?_
    obtain ⟨hf, hcmd, -⟩ := hby hd
    obtain ⟨hg, hcmd', -⟩ := hby hd'
    exact hfg hf hg (hcmd.symm.trans ((congrArg SocketCmd.cmd hdd).trans hcmd'))
  · refine List.Nodup.of_map SocketCmd.cmd ?_
    rw [List.map_map]
    exact h.cmds
  · obtain ⟨f, -, hf⟩ := List.mem_filterMap.mp hd
    exact (hby hf).2.2
  · obtain ⟨m, hm, rfl⟩ := List.mem_map.mp hd
    have hpos := m.length_pos
    obtain ⟨f, hf⟩ : ∃ f, m.frags[m.parts.length - 1]? = some f :=
      ⟨_, List.getElem?_eq_getElem (by rw [m.frags_length]; omega)⟩
    refine List.mem_filterMap.mpr ⟨f, ?_, ?_⟩
    · have hmem : f ∈ frags.filter fun f => f.cmd = m.cmd := by
        rw [h.own m hm]
        exact List.mem_of_getElem? hf
      exact (List.mem_filter.mp hmem).1
    · rw [finishedBy_of_mem h hm hf, if_pos (by omega)]

end Interleaving

/-! ## Runs of the source -/

section Runs

variable {msgs : List Msg} {frags : List Frag} {s₀ s : SocketCmdClass} {fed : List Byte}
  {log : List (SocketCmd × Nat)}

/-- The fragments of an interleaving fit if its messages do. -/
theorem Interleaving.fits (h : Interleaving msgs frags) (hfits : ∀ m ∈ msgs, m.Fits) :
    ∀ f ∈ frags, f.Fits := by
  intro f hf
  obtain ⟨m, hm, hcmd⟩ := h.all f hf
  refine Msg.fits_of_mem (hfits m hm) ?_
  rw [← h.own m hm]
  exact List.mem_filter.mpr ⟨hf, by simpa using hcmd⟩

/-- The state of a run, seen as a receiver: `done` has been parsed. -/
structure Parsed (msgs : List Msg) (frags : List Frag) (s : SocketCmdClass) (fed : List Byte)
    (log : List (SocketCmd × Nat)) (done rest : List Frag) (more : List Byte) (r : Receiver) :
    Prop where
  frags : frags = done ++ rest
  rep : Rep s r
  stream : r.OnStream (rest.map Frag.bytes) more
  fed : fed = streamBytes done ++ r.buf
  pending : r.pending.frags = (pendingFrags done).map Frag.info
  whole : r.pending.severed = false
  log : log = finished msgs 0 done

/-- The bytes that left the FIFO are those of the fragments that are done. -/
theorem Parsed.bytes_parsed {done rest : List Frag} {more : List Byte} {r : Receiver}
    (h : Parsed msgs frags s fed log done rest more r) :
    (streamBytes done).length = parsedBytes fed s := by
  have hbuf := congrArg List.length h.rep.buf
  rw [CmdFifo.bytes_length h.rep.fifo] at hbuf
  rw [parsedBytes, h.fed, List.length_append, hbuf, Nat.add_sub_cancel]

/-- The next fragments of a run are absorbed. -/
theorem Parsed.absorbAll (hmix : Interleaving msgs frags) (hfits : ∀ m ∈ msgs, m.Fits)
    (huncut : Uncut frags) {done more rest : List Frag} {bytes : List Byte} {r : Receiver}
    (h : Parsed msgs frags s fed log done (more ++ rest) bytes r) :
    ∃ p, r.pending.absorbAll (more.map Frag.info) = some (p, more.filterMap (finishedBy msgs)) ∧
      p.frags = (pendingFrags (done ++ more)).map Frag.info ∧ p.severed = false := by
  have hfrags := h.frags
  -- what is done, and what is done with these fragments behind it
  obtain ⟨q, habs, hqfrags, hqsev⟩ := absorbAll_interleaving hmix hfits huncut hfrags
  obtain ⟨p, habs', hpfrags, hpsev⟩ := absorbAll_interleaving hmix hfits huncut
    (hfrags.trans (List.append_assoc done more rest).symm)
  obtain rfl : q = r.pending :=
    Pending.ext (hqfrags.trans h.pending.symm) (hqsev.trans h.whole.symm)
  -- so what is between them is absorbed from the pending list
  rw [List.map_append, Pending.absorbAll_append, habs, List.filterMap_append] at habs'
  obtain ⟨⟨p', cmds⟩, hall, hout⟩ := Option.map_eq_some_iff.mp habs'
  rw [Prod.mk.injEq, List.append_cancel_left_eq] at hout
  obtain ⟨rfl, rfl⟩ := hout
  exact ⟨p', hall, hpfrags, hpsev⟩

/-- A call of `parseSocketCmd` in a run is defined, and takes the run through
the fragments up to the next finished message. -/
theorem Parsed.parse (hmix : Interleaving msgs frags) (hfits : ∀ m ∈ msgs, m.Fits)
    (huncut : Uncut frags) {done rest : List Frag} {more : List Byte} {r : Receiver}
    (h : Parsed msgs frags s fed log done rest more r) :
    ∃ s' d done' rest' r', parseSocketCmd s = some (s', d) ∧
      Parsed msgs frags s' fed (log ++ (d.map fun cmd => (cmd, parsedBytes fed s')).toList)
        done' rest' more r' ∧
      (d = none → r'.Starved (rest'.map Frag.bytes)) := by
  obtain ⟨doneB, restB, hsplit, hmatch⟩ := Receiver.parse_stream h.stream
  obtain ⟨now, later, rfl, rfl, rfl⟩ := List.map_eq_append_iff.mp hsplit
  have hfit : ∀ f ∈ done ++ (now ++ later), f.Fits := h.frags ▸ hmix.fits hfits
  obtain ⟨p, habs, hpfrags, hpsev⟩ := h.absorbAll hmix hfits huncut
  have hnow : ∀ f ∈ now, f.Fits := fun f hf => hfit f (by simp [hf])
  rw [map_parseInfo_bytes hnow, habs] at hmatch
  obtain ⟨hparse, hon, hend⟩ := hmatch
  rw [← streamBytes_eq_flatten] at hparse hon hend
  obtain ⟨s', hs', hrep'⟩ := parseSocketCmd_of_parse h.rep hparse
  -- the bytes parsed by this call
  have hbuf : r.buf = streamBytes now ++ (r.advance (streamBytes now).length p).buf := by
    have hbytes := h.stream.bytes
    rw [List.map_append, List.flatten_append, ← hon.bytes, ← List.append_assoc,
      List.append_cancel_right_eq, ← streamBytes_eq_flatten] at hbytes
    exact hbytes
  have hfed : fed = streamBytes (done ++ now) ++ (r.advance (streamBytes now).length p).buf := by
    rw [h.fed, streamBytes_append, List.append_assoc, ← hbuf]
  -- what the FIFO still holds is what has not been parsed
  have hpos : parsedBytes fed s' = (streamBytes done).length + (streamBytes now).length := by
    have hlen := congrArg List.length hrep'.buf
    rw [CmdFifo.bytes_length hrep'.fifo] at hlen
    rw [parsedBytes, hlen, hfed]
    simp only [List.length_append, streamBytes_append]
    omega
  have hnil : ∀ {n : Nat} {fs : List Frag}, fs.filterMap (finishedBy msgs) = [] →
      finished msgs n fs = [] := by
    intro n fs hfs
    rwa [← map_fst_finished msgs n, List.map_eq_nil_iff] at hfs
  -- the call delivers at most one message, at its last fragment
  have hlog : finished msgs (streamBytes done).length now =
      ((now.filterMap (finishedBy msgs)).head?.map fun cmd =>
        (cmd, parsedBytes fed s')).toList := by
    rcases hend with ⟨hcmds, -⟩ | ⟨initB, lastB, cmd, p₀, hnowB, hcmds, hinit, -⟩
    · rw [hcmds, hnil hcmds]
      rfl
    · obtain ⟨init, last', rfl, rfl, hlast⟩ := List.map_eq_append_iff.mp hnowB
      obtain ⟨last, rfl⟩ : ∃ last, last' = [last] := by
        obtain ⟨last, hl, -⟩ := List.map_eq_singleton_iff.mp hlast
        exact ⟨last, hl⟩
      -- the fragments in front of the last one finish nothing
      have hinitfits : ∀ f ∈ init, f.Fits := fun f hf => hnow f (by simp [hf])
      have hsplit : Parsed msgs frags s fed log done (init ++ ([last] ++ later)) _ _ :=
        { h with
          frags := h.frags.trans (by simp)
          stream := by simpa using h.stream }
      obtain ⟨q, hq, -⟩ := hsplit.absorbAll hmix hfits huncut
      rw [map_parseInfo_bytes hinitfits, hq] at hinit
      have hinitnil : init.filterMap (finishedBy msgs) = [] :=
        (Prod.mk.inj (Option.some.inj hinit)).2
      rw [List.filterMap_append, hinitnil, List.nil_append] at hcmds ⊢
      have hby : finishedBy msgs last = some cmd := by
        rw [List.filterMap_cons] at hcmds
        cases hby : finishedBy msgs last with
        | none => simp [hby] at hcmds
        | some d => simpa [hby] using hcmds
      rw [hcmds, finished_append, hnil hinitnil, hpos]
      simp [finished, hby, Nat.add_assoc]
  refine ⟨s', _, done ++ now, later, _, hs', ⟨?_, hrep', hon, hfed, hpfrags, hpsev, ?_⟩, ?_⟩
  · rw [h.frags, List.append_assoc]
  · rw [h.log, finished_append, Nat.zero_add, hlog]
  · intro hnone
    rcases hend with ⟨-, hstarved⟩ | ⟨-, -, cmd, -, -, hcmds, -⟩
    · exact hstarved
    · rw [hcmds] at hnone
      exact absurd hnone (by simp)

/-- Every state of a run has parsed some fragments. -/
theorem parsed_of_reach (hs : Idle s₀) (hmix : Interleaving msgs frags)
    (hfits : ∀ m ∈ msgs, m.Fits) (huncut : Uncut frags)
    (hreach : Reach s₀ (streamBytes frags) s fed log) :
    ∃ done rest more r, Parsed msgs frags s fed log done rest more r := by
  have hframes := isFrame_of_mem_map (hmix.fits hfits)
  induction hreach with
  | start =>
    exact ⟨[], frags, streamBytes frags, .fresh, rfl, hs.rep,
      ⟨hframes, by rw [streamBytes_eq_flatten]; rfl⟩, rfl, rfl, rfl, rfl⟩
  | @recv s s' fed chunk log _ hrecv hfed ih =>
    obtain ⟨done, rest, more, r, h⟩ := ih
    obtain ⟨hrep, hstored⟩ := recvSocketCmd_rep h.rep chunk
    rw [hrecv] at hrep hstored
    obtain ⟨more', hmore'⟩ := hfed
    -- what has not arrived starts with the chunk
    have hmore : more = chunk ++ more' := by
      have hbytes := h.stream.bytes
      rw [← streamBytes_eq_flatten] at hbytes
      rw [h.frags, streamBytes_append, ← hbytes, h.fed, List.append_assoc, List.append_assoc,
        List.append_cancel_left_eq, List.append_cancel_left_eq] at hmore'
      exact hmore'.symm
    -- the chunk was stored, so there was room
    have hroom : r.buf.length + chunk.length ≤ fifoMaxLen := by
      by_contra hroom
      rw [Receiver.recv, dif_neg hroom] at hstored
      exact absurd hstored (by simp)
    rw [Receiver.recv, dif_pos hroom] at hrep
    refine ⟨done, rest, more', _, h.frags, hrep, ⟨h.stream.frames, ?_⟩, ?_, h.pending, h.whole,
      h.log⟩
    · rw [List.append_assoc, ← hmore, h.stream.bytes]
    · rw [h.fed, List.append_assoc]
  | @parse s s' fed log d _ hparse ih =>
    obtain ⟨done, rest, more, r, h⟩ := ih
    obtain ⟨s'', d', done', rest', r', hparse', h', -⟩ := h.parse hmix hfits huncut
    obtain ⟨rfl, rfl⟩ := Prod.mk.inj (Option.some.inj (hparse.symm.trans hparse'))
    exact ⟨done', rest', more, r', h'⟩

/-- **Reassembly.** In every run on an uncut interleaving of messages whose parts
fit the length field, every state is as it should be. -/
theorem reassembled_of_uncut (hs : Idle s₀) (hmix : Interleaving msgs frags)
    (hfits : ∀ m ∈ msgs, m.Fits) (huncut : Uncut frags)
    (hreach : Reach s₀ (streamBytes frags) s fed log) :
    Reassembled msgs frags s fed log := by
  obtain ⟨done, rest, more, r, h⟩ := parsed_of_reach hs hmix hfits huncut hreach
  obtain ⟨s', d, done', rest', r', hparse, h', hstarved⟩ := h.parse hmix hfits huncut
  refine ⟨by simp [hparse], ⟨done.length, ?_⟩, ?_⟩
  · rw [h.frags, List.take_left, ← h.pending, ← h.whole]
    exact ⟨h.bytes_parsed, h.log, h.rep.list⟩
  · intro hfed s'' hnone
    obtain ⟨rfl, rfl⟩ := Prod.mk.inj (Option.some.inj (hparse.symm.trans hnone))
    -- nothing is left of the stream, and no frame is waiting
    have hmore : r'.buf ++ more = r'.buf := by
      have hbytes := h'.stream.bytes
      have hfed' := h'.fed
      rw [hfed, h'.frags, streamBytes_append, List.append_cancel_left_eq] at hfed'
      rw [hbytes, ← streamBytes_eq_flatten, hfed']
    have hrest : rest' = [] := by
      cases rest' with
      | nil => rfl
      | cons f fs =>
        have hlt := hstarved rfl f.bytes (by simp)
        have hbytes := congrArg List.length h'.stream.bytes
        rw [hmore, List.map_cons, List.flatten_cons, List.length_append] at hbytes
        omega
    have hlog := h'.log
    rw [Option.map_none, Option.toList_none, List.append_nil] at hlog
    have hdone : frags = done' := by rw [h'.frags, hrest, List.append_nil]
    rw [hlog, map_fst_finished, ← hdone]
    exact hmix.perm_finished

/-- If every call of `parseSocketCmd` in a run is defined, so is the loop of
`server_start` round it. -/
theorem serverDrain_of_reach {stream : List Byte}
    (hdefined : ∀ s log, Reach s₀ stream s fed log → parseSocketCmd s ≠ none)
    (hreach : Reach s₀ stream s fed log) : serverDrain s ≠ none := by
  -- every turn of the loop is one more `parse` step of the run
  have hloop : ∀ t : SocketCmdClass × List SocketCmd, ∀ log, Reach s₀ stream t.1 fed log →
      serverLoop.run t ≠ none := by
    intro t
    induction t using serverLoop.run_induct with
    | step t ih =>
      intro log hreach
      rcases hparse : parseSocketCmd t.1 with _ | ⟨s', _ | cmd⟩
      · exact absurd hparse (hdefined _ _ hreach)
      · rw [ConsumingLoop.run_of_inr (b := some (s', t.2)) (by simp only [serverLoop, hparse])]
        simp
      · have hturn : serverLoop.turn t = .inl (s', t.2 ++ [cmd]) := by
          simp only [serverLoop, hparse]
        rw [ConsumingLoop.run_of_inl hturn]
        exact ih _ hturn _ (hreach.parse hparse)
  exact hloop (s, []) log hreach

/-- A run in which every call of `parseSocketCmd` is defined goes on until nothing is delivered. -/
theorem exists_reach_drained {stream : List Byte}
    (hdefined : ∀ s log, Reach s₀ stream s fed log → parseSocketCmd s ≠ none)
    (hreach : Reach s₀ stream s fed log) :
    ∃ s₁ s₂ log', Reach s₀ stream s₁ fed log' ∧ parseSocketCmd s₁ = some (s₂, none) := by
  have hloop : ∀ t : SocketCmdClass × List SocketCmd, ∀ log, Reach s₀ stream t.1 fed log →
      ∃ s₁ s₂ log', Reach s₀ stream s₁ fed log' ∧ parseSocketCmd s₁ = some (s₂, none) := by
    intro t
    -- along the loop of the server, which comes to an end
    induction t using serverLoop.run_induct with
    | step t ih =>
      intro log hreach
      rcases hparse : parseSocketCmd t.1 with _ | ⟨s', _ | cmd⟩
      · exact absurd hparse (hdefined _ _ hreach)
      · exact ⟨t.1, s', log, hreach, hparse⟩
      · have hturn : serverLoop.turn t = .inl (s', t.2 ++ [cmd]) := by
          simp only [serverLoop, hparse]
        exact ih _ hturn _ (hreach.parse hparse)
  exact hloop (s, []) log hreach

/-- From an idle class a stream that fits the FIFO can be fed at once. -/
theorem reach_feed (hs : Idle s₀) {stream : List Byte} (hlen : stream.length ≤ fifoMaxLen) :
    ∃ s r, Reach s₀ stream s stream [] ∧ Rep s r ∧ r.buf = stream ∧ r.pending = .empty := by
  obtain ⟨hrep, hstored⟩ := recvSocketCmd_rep hs.rep stream
  rw [Receiver.recv, dif_pos (by simpa [Receiver.fresh] using hlen)] at hrep hstored
  exact ⟨_, _, .recv .start (Prod.ext rfl hstored) (List.prefix_refl _), hrep, rfl, rfl⟩

end Runs

/-! ## A stream that is cut, and one that is not -/

/-- A message in two parts and one in three. -/
def twoParts : Msg := ⟨0xA#32, 1, [[1, 2], [3]], by decide, by decide⟩

def threeParts : Msg := ⟨0xB#32, 1, [[4], [5, 6], [7]], by decide, by decide⟩

/-- The two-part message ends between fragments of the other one. -/
def crossed : List Frag :=
  [threeParts.frag 0 [4], twoParts.frag 0 [1, 2], threeParts.frag 1 [5, 6], twoParts.frag 1 [3],
    threeParts.frag 2 [7]]

/-- Two messages whose fragments cross. -/
theorem interleaving_crossed : Interleaving [twoParts, threeParts] crossed :=
  ⟨by decide, by decide, by decide⟩

/-- When the crossed message is finished the list is cut, and the next frame
walks into released memory. -/
theorem crossed_not_reassembled :
    Interleaving [twoParts, threeParts] crossed ∧ (∀ m ∈ [twoParts, threeParts], m.Fits) ∧
      ¬ ∀ s fed log, Reach bootClass (streamBytes crossed) s fed log →
        Reassembled [twoParts, threeParts] crossed s fed log := by
  refine ⟨interleaving_crossed, by decide, ?_⟩
  intro hall
  obtain ⟨s, r, hreach, hrep, hbuf, hpending⟩ := reach_feed idle_bootClass
    (by decide : (streamBytes crossed).length ≤ fifoMaxLen)
  have hfits := interleaving_crossed.fits (by decide)
  -- the fragment behind the cut is added through a released node
  have hundefined : r.drain = none := by
    have hon : r.OnStream (crossed.map Frag.bytes) [] :=
      ⟨isFrame_of_mem_map hfits, by rw [List.append_nil, hbuf, streamBytes_eq_flatten]⟩
    rw [Receiver.drain_all hon, map_parseInfo_bytes hfits, hpending]
    rfl
  exact serverDrain_of_reach (fun s log h => (hall s _ log h).defined) hreach
    (serverDrain_of_none hrep hundefined)

/-- The same messages, the two-part one inside the other: nothing is cut. -/
def nested : List Frag :=
  [threeParts.frag 0 [4], threeParts.frag 1 [5, 6], twoParts.frag 0 [1, 2], twoParts.frag 1 [3],
    threeParts.frag 2 [7]]

/-- They are fed at once, and delivered one after the other. -/
theorem nested_reassembled :
    ∃ s log, Reach bootClass (streamBytes nested) s (streamBytes nested) log ∧
      Reassembled [twoParts, threeParts] nested s (streamBytes nested) log ∧
      (log.map Prod.fst).Perm [⟨0xA, 0, 1, 3, [1, 2, 3]⟩, ⟨0xB, 0, 1, 4, [4, 5, 6, 7]⟩] := by
  have hnested : Interleaving [twoParts, threeParts] nested := ⟨by decide, by decide, by decide⟩
  obtain ⟨s, -, hreach, -⟩ := reach_feed idle_bootClass
    (by decide : (streamBytes nested).length ≤ fifoMaxLen)
  -- every state of the run is as it should be, so that the run goes on to its end
  obtain ⟨s₁, s₂, log, hreach₁, hend⟩ := exists_reach_drained (fun s log h =>
    (reassembled_of_uncut idle_bootClass hnested (by decide) (by decide) h).defined) hreach
  have hall := reassembled_of_uncut idle_bootClass hnested (by decide) (by decide) hreach₁
  exact ⟨s₁, log, hreach₁, hall, hall.complete rfl s₂ hend⟩

end PgClient.PackSocket
