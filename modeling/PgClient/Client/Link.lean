import Mathlib.Data.Fintype.EquivFin
import PgClient.Lib.PartialRun
import PgClient.Lib.SharedHandle

/-!
# The link to the server

The threads of `client.c` that find the server, connect to it, accept its connections, send it
heartbeats and give it up. They share `cliservice`, of which only `link_on` and
`time_alive_timeout` are used under the mutex.

A turn is one access to what the threads share, or one call; the descriptor for a `close` is loaded
in a turn of its own. What a call returns is chosen from outside: a receive may return at any time,
so `shutdown` has no other effect here. All threads are told to go on working.

* `connections_abandoned` — the connections that no handle names, other than one that its thread has
  loaded to close it, are those whose handle was overwritten before. They are never closed.
* `link_heard` — the link is on if and only if the server was heard of less than five seconds ago.
* `can_connect` — the threads do not block each other.
-/

namespace PgClient.Client.Link

open PartialRun SharedHandle

/-! ## The threads -/

/-- `client_mutilcast`. -/
inductive MutilcastAt
  | receiving
  /-- With the mutex, and the address is set. -/
  | updating
  deriving DecidableEq

/-- `server_guard`, with `close_all_socket`. -/
inductive GuardAt
  | sleeping
  /-- The link is down; the mutex is held from here on. -/
  | clearing
  | checkSend
  | dropSend
  | checkClient
  | dropClient
  | linkDown
  deriving DecidableEq

/-- `client_rebackHeart`, in the thread of the timer. -/
inductive HeartAt
  | idle
  | sending
  | dropping
  deriving DecidableEq

/-- `client_connect`. -/
inductive ConnectAt
  | waiting
  | connecting
  | checking
  | receiving
  | closeCheck
  | loading
  /-- The argument of `close`. -/
  | closing (fd : Int)
  | forgetting
  | clearing
  deriving DecidableEq

/-- `server_start`, from the `accept` on. -/
inductive ServerAt
  | accepting
  | receiving
  | closeCheck
  | loading
  /-- The argument of `close`. -/
  | closing (fd : Int)
  | forgetting
  deriving DecidableEq

/-- What the threads share, where they are, and the connections that are open. -/
structure State where
  serverIp : Nat
  linkOn : Bool
  timeAliveTimeout : Nat
  sendFd : Int
  clientSocket : Int
  mutilcast : MutilcastAt
  guard : GuardAt
  heart : HeartAt
  connect : ConnectAt
  server : ServerAt
  /-- What `xconnect` opened. -/
  outgoing : List Int
  /-- What `accept` opened. -/
  incoming : List Int

/-- After the `memset` of `client_init`. -/
def start : State where
  serverIp := 0
  linkOn := false
  timeAliveTimeout := 0
  sendFd := 0
  clientSocket := 0
  mutilcast := .receiving
  guard := .sleeping
  heart := .idle
  connect := .waiting
  server := .accepting
  outgoing := []
  incoming := []

/-- A new descriptor is not one that is open. -/
def State.fresh (s : State) (fd : Int) : Prop := 0 ≤ fd ∧ fd ∉ s.outgoing ∧ fd ∉ s.incoming

instance instDecidableFresh (s : State) (fd : Int) : Decidable (s.fresh fd) :=
  inferInstanceAs (Decidable (_ ∧ _ ∧ _))

/-- `close`. -/
def State.close (s : State) (fd : Int) : State :=
  { s with outgoing := s.outgoing.erase fd, incoming := s.incoming.erase fd }

/-- A datagram from a server comes in, or the section for it ends. -/
def mutilcastTurn (ip : Nat) (s : State) : Option State :=
  match s.mutilcast with
  | .receiving =>
    -- the guard keeps the mutex until the link is down
    if s.guard = .sleeping then some { s with serverIp := ip, mutilcast := .updating } else none
  | .updating =>
    some { s with linkOn := true, timeAliveTimeout := 0, mutilcast := .receiving }

/-- A second is over, or `close_all_socket` goes on. -/
def guardTurn (s : State) : Option State :=
  match s.guard with
  | .sleeping =>
    if s.mutilcast = .receiving then
      let t := s.timeAliveTimeout + 1
      some { s with
        timeAliveTimeout := t
        guard := if 5 ≤ t ∧ s.linkOn = true then .clearing else .sleeping }
    else none
  | .clearing => some { s with serverIp := 0, guard := .checkSend }
  | .checkSend => some { s with guard := if s.sendFd ≠ -1 then .dropSend else .checkClient }
  | .dropSend => some { s with sendFd := -1, guard := .checkClient }
  | .checkClient => some { s with guard := if s.clientSocket ≠ -1 then .dropClient else .linkDown }
  | .dropClient => some { s with clientSocket := -1, guard := .linkDown }
  | .linkDown => some { s with linkOn := false, guard := .sleeping }

/-- A heartbeat, where `sent` is whether `send` succeeds. -/
def heartTurn (sent : Bool) (s : State) : Option State :=
  match s.heart with
  | .idle => some { s with heart := if s.sendFd ≠ -1 then .sending else .idle }
  | .sending => some { s with heart := if s.sendFd ≠ -1 ∧ sent = true then .idle else .dropping }
  | .dropping => some { s with sendFd := -1, heart := .idle }

/-- `client_connect`, where `r` is what `xconnect` or `recv` returns. -/
def connectTurn (r : Int) (s : State) : Option State :=
  match s.connect with
  | .waiting => some { s with connect := if s.serverIp ≠ 0 then .connecting else .waiting }
  | .connecting =>
    if r = -1 then some { s with sendFd := -1, connect := .checking }
    else if s.fresh r then
      some { s with sendFd := r, outgoing := r :: s.outgoing, connect := .checking }
    else none
  | .checking => some { s with connect := if s.sendFd = -1 then .waiting else .receiving }
  | .receiving => some { s with connect := if r ≤ 0 then .closeCheck else .receiving }
  | .closeCheck => some { s with connect := if s.sendFd ≠ -1 then .loading else .clearing }
  | .loading => some { s with connect := .closing s.sendFd }
  | .closing fd => some { s.close fd with connect := .forgetting }
  | .forgetting => some { s with sendFd := -1, connect := .clearing }
  | .clearing => some { s with serverIp := 0, connect := .waiting }

/-- `server_start`, where `r` is what `accept` or `recv` returns. An `accept` that fails is not
noticed. -/
def serverTurn (r : Int) (s : State) : Option State :=
  match s.server with
  | .accepting =>
    if r = -1 then some { s with clientSocket := -1, server := .receiving }
    else if s.fresh r then
      some { s with clientSocket := r, incoming := r :: s.incoming, server := .receiving }
    else none
  | .receiving => some { s with server := if r ≤ 0 then .closeCheck else .receiving }
  | .closeCheck => some { s with server := if s.clientSocket ≠ -1 then .loading else .accepting }
  | .loading => some { s with server := .closing s.clientSocket }
  | .closing fd => some { s.close fd with server := .forgetting }
  | .forgetting => some { s with clientSocket := -1, server := .accepting }

inductive Turn
  | mutilcast (ip : Nat)
  | guard
  | heart (sent : Bool)
  | connect (r : Int)
  | server (r : Int)

/-- A turn of a thread; `none` is one that the thread waits for the mutex, or a descriptor that is
not new. -/
def step : Turn → State → Option State
  | .mutilcast ip => mutilcastTurn ip
  | .guard => guardTurn
  | .heart sent => heartTurn sent
  | .connect r => connectTurn r
  | .server r => serverTurn r

/-! ## Connections -/

/-- Where `client_connect` has a connection, and has not loaded its descriptor to close it. -/
def ConnectAt.holding : ConnectAt → Bool
  | .checking => true
  | .receiving => true
  | .closeCheck => true
  | .loading => true
  | _ => false

def ServerAt.holding : ServerAt → Bool
  | .receiving => true
  | .closeCheck => true
  | .loading => true
  | _ => false

/-- The connections other than one that is about to be closed. -/
def ConnectAt.others : ConnectAt → List Int → List Int
  | .closing fd, fds => fds.erase fd
  | _, fds => fds

def ServerAt.others : ServerAt → List Int → List Int
  | .closing fd, fds => fds.erase fd
  | _, fds => fds

/-- `send_fd` and its thread. -/
def State.send (s : State) : Cell Int := ⟨s.connect.holding, s.sendFd, s.connect.others s.outgoing⟩

/-- `client_socket` and its thread. -/
def State.client (s : State) : Cell Int :=
  ⟨s.server.holding, s.clientSocket, s.server.others s.incoming⟩

/-- The two threads have connections of their own, and close no others. -/
structure Apart (s : State) : Prop where
  disjoint : s.outgoing.Disjoint s.incoming
  outgoing : -1 ∉ s.outgoing
  incoming : -1 ∉ s.incoming
  connect : ∀ fd, s.connect = .closing fd → fd = -1 ∨ fd ∈ s.outgoing
  server : ∀ fd, s.server = .closing fd → fd = -1 ∨ fd ∈ s.incoming

/-- Both threads can rely on their handles, and no descriptor is open twice. -/
structure Good (s : State) : Prop extends Apart s where
  send : s.send.Kept (-1)
  client : s.client.Kept (-1)

/-- The open connections that no handle names and no thread is about to close. -/
def State.abandoned (s : State) : List Int := s.send.abandoned ++ s.client.abandoned

/-- The connections whose handle is overwritten in a turn, while they are open and their thread is
not about to close them. -/
def abandons : Turn → State → List Int
  | .guard, s =>
    match s.guard with
    | .dropSend => s.send.dropped
    | .dropClient => s.client.dropped
    | _ => []
  | .heart _, s => if s.heart = .dropping then s.send.dropped else []
  | _, _ => []

/-- The descriptor that a turn closes is none, or a connection of the thread. -/
def ClosesOwn : Turn → State → Prop
  | .connect _, s => ∀ fd, s.connect = .closing fd → fd = -1 ∨ fd ∈ s.outgoing
  | .server _, s => ∀ fd, s.server = .closing fd → fd = -1 ∨ fd ∈ s.incoming
  | _, _ => True

theorem good_start : Good start where
  disjoint := List.disjoint_nil_left _
  outgoing := List.not_mem_nil
  incoming := List.not_mem_nil
  connect _ h := by cases h
  server _ h := by cases h
  send := .start _ _
  client := .start _ _

/-- What a turn does to the connections. -/
structure Moved (s s' : State) (gone : List Int) : Prop where
  good : Good s'
  perm : s'.abandoned.Perm (gone ++ s.abandoned)

variable {s s' : State} {gone : List Int}

theorem Moved.of_send (h : Good s) (hsend : Move (-1) s.send s'.send gone)
    (hclient : s'.client = s.client) (hapart : Apart s') : Moved s s' gone := by
  refine ⟨⟨hapart, hsend.kept, hclient ▸ h.client⟩, ?_⟩
  rw [State.abandoned, State.abandoned, hclient, ← List.append_assoc]
  exact hsend.perm.append_right _

theorem Moved.of_client (h : Good s) (hclient : Move (-1) s.client s'.client gone)
    (hsend : s'.send = s.send) (hapart : Apart s') : Moved s s' gone := by
  refine ⟨⟨hapart, hsend ▸ h.send, hclient.kept⟩, ?_⟩
  rw [State.abandoned, State.abandoned, hsend]
  exact (hclient.perm.append_left _).trans
    ((List.perm_append_comm_assoc _ _ _).trans (.refl _))

/-- A turn that does not touch them. -/
theorem Moved.of_same (h : Good s) (hsend : s'.send = s.send) (hclient : s'.client = s.client)
    (hapart : Apart s') : Moved s s' [] :=
  .of_send h (by rw [hsend]; exact .refl h.send) hclient hapart

/-- Nothing is opened, closed or loaded. -/
theorem Apart.of_same (h : Apart s) (hout : s'.outgoing = s.outgoing)
    (hin : s'.incoming = s.incoming)
    (hconnect : ∀ fd, s'.connect = .closing fd → s.connect = .closing fd)
    (hserver : ∀ fd, s'.server = .closing fd → s.server = .closing fd) : Apart s' :=
  ⟨hout ▸ hin ▸ h.disjoint, hout ▸ h.outgoing, hin ▸ h.incoming,
    fun fd hfd => hout ▸ h.connect fd (hconnect fd hfd),
    fun fd hfd => hin ▸ h.server fd (hserver fd hfd)⟩

/-- A thread that has neither a connection nor a descriptor to close stays as it is. -/
theorem Moved.of_elsewhere (h : Good s) (hsend : s'.send = s.send) (hclient : s'.client = s.client)
    (hout : s'.outgoing = s.outgoing) (hin : s'.incoming = s.incoming)
    (hconnect : s'.connect = s.connect) (hserver : s'.server = s.server) : Moved s s' [] :=
  .of_same h hsend hclient (h.toApart.of_same hout hin (fun _ hfd => hconnect ▸ hfd)
    fun _ hfd => hserver ▸ hfd)

theorem moved_mutilcast {ip : Nat} (h : Good s) (hturn : mutilcastTurn ip s = some s') :
    Moved s s' [] := by
  unfold mutilcastTurn at hturn
  split at hturn
  · split at hturn
    · cases hturn
      exact .of_elsewhere h rfl rfl rfl rfl rfl rfl
    · cases hturn
  · cases hturn
    exact .of_elsewhere h rfl rfl rfl rfl rfl rfl

theorem moved_guard (h : Good s) (hturn : guardTurn s = some s') :
    Moved s s' (abandons .guard s) := by
  cases hat : s.guard with
  | sleeping =>
    rw [guardTurn, hat] at hturn
    rw [abandons, hat]
    dsimp only at hturn
    split at hturn
    · cases hturn
      exact .of_elsewhere h rfl rfl rfl rfl rfl rfl
    · cases hturn
  | dropSend =>
    -- the connection is lost without a close
    rw [guardTurn, hat] at hturn
    rw [abandons, hat]
    cases hturn
    exact .of_send h (.drop h.send _) rfl
      (h.toApart.of_same rfl rfl (fun _ => id) fun _ => id)
  | dropClient =>
    rw [guardTurn, hat] at hturn
    rw [abandons, hat]
    cases hturn
    exact .of_client h (.drop h.client _) rfl
      (h.toApart.of_same rfl rfl (fun _ => id) fun _ => id)
  | _ =>
    -- the other turns touch no descriptor
    rw [guardTurn, hat] at hturn
    rw [abandons, hat]
    cases hturn
    exact .of_elsewhere h rfl rfl rfl rfl rfl rfl

theorem moved_heart {sent : Bool} (h : Good s) (hturn : heartTurn sent s = some s') :
    Moved s s' (abandons (.heart sent) s) := by
  cases hat : s.heart with
  | dropping =>
    -- a heartbeat that is not sent gives the connection up without closing it
    rw [heartTurn, hat] at hturn
    rw [abandons, if_pos hat]
    cases hturn
    exact .of_send h (.drop h.send _) rfl
      (h.toApart.of_same rfl rfl (fun _ => id) fun _ => id)
  | _ =>
    rw [heartTurn, hat] at hturn
    rw [abandons, if_neg (by rw [hat]; decide)]
    cases hturn
    exact .of_elsewhere h rfl rfl rfl rfl rfl rfl

/-- What a thread has loaded is closed: it is no connection of the other thread. -/
theorem Apart.notMem_incoming (h : Apart s) {fd : Int} (hfd : fd = -1 ∨ fd ∈ s.outgoing) :
    fd ∉ s.incoming := by
  rcases hfd with rfl | hmem
  · exact h.incoming
  · exact fun hin => h.disjoint hmem hin

theorem Apart.notMem_outgoing (h : Apart s) {fd : Int} (hfd : fd = -1 ∨ fd ∈ s.incoming) :
    fd ∉ s.outgoing := by
  rcases hfd with rfl | hmem
  · exact h.outgoing
  · exact fun hout => h.disjoint hout hmem

theorem moved_connect {r : Int} (h : Good s) (hturn : connectTurn r s = some s') :
    Moved s s' [] := by
  have hkept := h.send
  cases hat : s.connect with
  | waiting =>
    have hcell : s.send = ⟨false, s.sendFd, s.outgoing⟩ := by rw [State.send, hat]; rfl
    rw [connectTurn, hat] at hturn
    cases hturn
    refine .of_same h ?_ rfl (h.toApart.of_same rfl rfl (fun fd hfd => ?_) fun _ => id)
    · rw [hcell, State.send]
      dsimp only
      split <;> rfl
    · dsimp only at hfd
      split at hfd <;> cases hfd
  | connecting =>
    -- a connection, or none
    have hcell : s.send = ⟨false, s.sendFd, s.outgoing⟩ := by rw [State.send, hat]; rfl
    rw [hcell] at hkept
    rw [connectTurn, hat] at hturn
    dsimp only at hturn
    split at hturn
    · cases hturn
      refine .of_send h ?_ rfl (h.toApart.of_same rfl rfl (fun _ hfd => by cases hfd) fun _ => id)
      rw [hcell]
      exact .forget hkept (hkept.of_free rfl) true
    · split at hturn
      · -- the kernel hands out a descriptor that neither thread has open
        next hne hfresh =>
        cases hturn
        obtain ⟨-, hout, hin⟩ := hfresh
        refine .of_send h ?_ rfl ⟨List.disjoint_cons_left.mpr ⟨hin, h.disjoint⟩, ?_, h.incoming,
          fun _ hfd => (by cases hfd), h.server⟩
        · rw [hcell]
          exact .acquire hkept rfl hout hne
        · exact List.not_mem_cons_of_ne_of_not_mem (Ne.symm hne) h.outgoing
      · cases hturn
  | checking =>
    have hcell : s.send = ⟨true, s.sendFd, s.outgoing⟩ := by rw [State.send, hat]; rfl
    rw [hcell] at hkept
    rw [connectTurn, hat] at hturn
    cases hturn
    -- the handle may be overwritten already; then no descriptor is held any more
    by_cases hnone : s.sendFd = -1
    · rw [if_pos hnone]
      refine .of_send h ?_ rfl (h.toApart.of_same rfl rfl (fun _ hfd => by cases hfd) fun _ => id)
      rw [hcell]
      exact .lost hkept hnone false
    · rw [if_neg hnone]
      exact .of_same h (by rw [hcell]; rfl) rfl
        (h.toApart.of_same rfl rfl (fun _ hfd => by cases hfd) fun _ => id)
  | receiving =>
    have hcell : s.send = ⟨true, s.sendFd, s.outgoing⟩ := by rw [State.send, hat]; rfl
    rw [connectTurn, hat] at hturn
    cases hturn
    refine .of_same h ?_ rfl (h.toApart.of_same rfl rfl (fun fd hfd => ?_) fun _ => id)
    · rw [hcell, State.send]
      dsimp only
      split <;> rfl
    · dsimp only at hfd
      split at hfd <;> cases hfd
  | closeCheck =>
    have hcell : s.send = ⟨true, s.sendFd, s.outgoing⟩ := by rw [State.send, hat]; rfl
    rw [hcell] at hkept
    rw [connectTurn, hat] at hturn
    cases hturn
    by_cases hnone : s.sendFd = -1
    · rw [if_neg (not_not.mpr hnone)]
      refine .of_send h ?_ rfl (h.toApart.of_same rfl rfl (fun _ hfd => by cases hfd) fun _ => id)
      rw [hcell]
      exact .lost hkept hnone false
    · rw [if_pos hnone]
      exact .of_same h (by rw [hcell]; rfl) rfl
        (h.toApart.of_same rfl rfl (fun _ hfd => by cases hfd) fun _ => id)
  | loading =>
    -- from here on nothing but this thread can name the connection
    have hcell : s.send = ⟨true, s.sendFd, s.outgoing⟩ := by rw [State.send, hat]; rfl
    rw [hcell] at hkept
    rw [connectTurn, hat] at hturn
    cases hturn
    refine .of_send h ?_ rfl ⟨h.disjoint, h.outgoing, h.incoming, fun fd hfd => ?_, h.server⟩
    · rw [hcell]
      exact .release hkept
    · cases hfd
      exact hkept.of_holding rfl
  | closing fd =>
    have hout := h.connect fd hat
    have hin : s.incoming.erase fd = s.incoming :=
      List.erase_of_not_mem (h.toApart.notMem_incoming hout)
    have hcell : s.send = ⟨false, s.sendFd, s.outgoing.erase fd⟩ := by rw [State.send, hat]; rfl
    rw [connectTurn, hat] at hturn
    cases hturn
    refine .of_same h (by rw [hcell]; rfl) ?_ ⟨?_, ?_, ?_, fun _ hfd => (by cases hfd), ?_⟩
    · rw [State.client, State.client]
      exact congrArg (fun fds => Cell.mk _ _ (s.server.others fds)) hin
    · exact List.disjoint_of_subset_left List.erase_subset
        (List.disjoint_of_subset_right List.erase_subset h.disjoint)
    · exact fun hmem => h.outgoing (List.mem_of_mem_erase hmem)
    · exact fun hmem => h.incoming (List.mem_of_mem_erase hmem)
    · show ∀ fd', s.server = .closing fd' → fd' = -1 ∨ fd' ∈ s.incoming.erase fd
      rw [hin]
      exact h.server
  | forgetting =>
    have hcell : s.send = ⟨false, s.sendFd, s.outgoing⟩ := by rw [State.send, hat]; rfl
    rw [hcell] at hkept
    rw [connectTurn, hat] at hturn
    cases hturn
    refine .of_send h ?_ rfl (h.toApart.of_same rfl rfl (fun _ hfd => by cases hfd) fun _ => id)
    rw [hcell]
    exact .forget hkept (hkept.of_free rfl) false
  | clearing =>
    have hcell : s.send = ⟨false, s.sendFd, s.outgoing⟩ := by rw [State.send, hat]; rfl
    rw [connectTurn, hat] at hturn
    cases hturn
    exact .of_same h (by rw [hcell]; rfl) rfl
      (h.toApart.of_same rfl rfl (fun _ hfd => by cases hfd) fun _ => id)

theorem moved_server {r : Int} (h : Good s) (hturn : serverTurn r s = some s') :
    Moved s s' [] := by
  have hkept := h.client
  cases hat : s.server with
  | accepting =>
    have hcell : s.client = ⟨false, s.clientSocket, s.incoming⟩ := by rw [State.client, hat]; rfl
    rw [hcell] at hkept
    rw [serverTurn, hat] at hturn
    dsimp only at hturn
    split at hturn
    · cases hturn
      refine .of_client h ?_ rfl (h.toApart.of_same rfl rfl (fun _ => id) fun _ hfd => by cases hfd)
      rw [hcell]
      exact .forget hkept (hkept.of_free rfl) true
    · split at hturn
      · -- as for the other thread: the descriptor is new to both
        next hne hfresh =>
        cases hturn
        obtain ⟨-, hout, hin⟩ := hfresh
        refine .of_client h ?_ rfl ⟨List.disjoint_cons_right.mpr ⟨hout, h.disjoint⟩, h.outgoing, ?_,
          h.connect, fun _ hfd => (by cases hfd)⟩
        · rw [hcell]
          exact .acquire hkept rfl hin hne
        · exact List.not_mem_cons_of_ne_of_not_mem (Ne.symm hne) h.incoming
      · cases hturn
  | receiving =>
    have hcell : s.client = ⟨true, s.clientSocket, s.incoming⟩ := by rw [State.client, hat]; rfl
    rw [serverTurn, hat] at hturn
    cases hturn
    refine .of_same h rfl ?_ (h.toApart.of_same rfl rfl (fun _ => id) fun fd hfd => ?_)
    · rw [hcell, State.client]
      dsimp only
      split <;> rfl
    · dsimp only at hfd
      split at hfd <;> cases hfd
  | closeCheck =>
    have hcell : s.client = ⟨true, s.clientSocket, s.incoming⟩ := by rw [State.client, hat]; rfl
    rw [hcell] at hkept
    rw [serverTurn, hat] at hturn
    cases hturn
    by_cases hnone : s.clientSocket = -1
    · rw [if_neg (not_not.mpr hnone)]
      refine .of_client h ?_ rfl (h.toApart.of_same rfl rfl (fun _ => id) fun _ hfd => by cases hfd)
      rw [hcell]
      exact .lost hkept hnone false
    · rw [if_pos hnone]
      exact .of_same h rfl (by rw [hcell]; rfl)
        (h.toApart.of_same rfl rfl (fun _ => id) fun _ hfd => by cases hfd)
  | loading =>
    have hcell : s.client = ⟨true, s.clientSocket, s.incoming⟩ := by rw [State.client, hat]; rfl
    rw [hcell] at hkept
    rw [serverTurn, hat] at hturn
    cases hturn
    refine .of_client h ?_ rfl ⟨h.disjoint, h.outgoing, h.incoming, h.connect, fun fd hfd => ?_⟩
    · rw [hcell]
      exact .release hkept
    · cases hfd
      exact hkept.of_holding rfl
  | closing fd =>
    have hin := h.server fd hat
    have hout : s.outgoing.erase fd = s.outgoing :=
      List.erase_of_not_mem (h.toApart.notMem_outgoing hin)
    have hcell : s.client = ⟨false, s.clientSocket, s.incoming.erase fd⟩ := by
      rw [State.client, hat]; rfl
    rw [serverTurn, hat] at hturn
    cases hturn
    refine .of_same h ?_ (by rw [hcell]; rfl) ⟨?_, ?_, ?_, ?_, fun _ hfd => (by cases hfd)⟩
    · rw [State.send, State.send]
      exact congrArg (fun fds => Cell.mk _ _ (s.connect.others fds)) hout
    · exact List.disjoint_of_subset_left List.erase_subset
        (List.disjoint_of_subset_right List.erase_subset h.disjoint)
    · exact fun hmem => h.outgoing (List.mem_of_mem_erase hmem)
    · exact fun hmem => h.incoming (List.mem_of_mem_erase hmem)
    · show ∀ fd', s.connect = .closing fd' → fd' = -1 ∨ fd' ∈ s.outgoing.erase fd
      rw [hout]
      exact h.connect
  | forgetting =>
    have hcell : s.client = ⟨false, s.clientSocket, s.incoming⟩ := by rw [State.client, hat]; rfl
    rw [hcell] at hkept
    rw [serverTurn, hat] at hturn
    cases hturn
    refine .of_client h ?_ rfl (h.toApart.of_same rfl rfl (fun _ => id) fun _ hfd => by cases hfd)
    rw [hcell]
    exact .forget hkept (hkept.of_free rfl) false

/-- A turn of any thread. -/
theorem moved_step {t : Turn} (h : Good s) (hturn : step t s = some s') :
    Moved s s' (abandons t s) := by
  cases t with
  | mutilcast ip => exact moved_mutilcast h hturn
  | guard => exact moved_guard h hturn
  | heart sent => exact moved_heart h hturn
  | connect r => exact moved_connect h hturn
  | server r => exact moved_server h hturn

theorem closesOwn_of_good (h : Good s) (t : Turn) : ClosesOwn t s := by
  cases t with
  | connect r => exact h.connect
  | server r => exact h.server
  | _ => trivial

theorem mem_others_connect {fd : Int} {fds : List Int} (hmem : fd ∈ fds) (a : ConnectAt) :
    a = .closing fd ∨ fd ∈ a.others fds := by
  cases a with
  | closing fd' =>
    by_cases heq : fd' = fd
    · exact .inl (congrArg _ heq)
    · exact .inr ((List.mem_erase_of_ne (Ne.symm heq)).mpr hmem)
  | _ => exact .inr hmem

theorem mem_others_server {fd : Int} {fds : List Int} (hmem : fd ∈ fds) (a : ServerAt) :
    a = .closing fd ∨ fd ∈ a.others fds := by
  cases a with
  | closing fd' =>
    by_cases heq : fd' = fd
    · exact .inl (congrArg _ heq)
    · exact .inr ((List.mem_erase_of_ne (Ne.symm heq)).mpr hmem)
  | _ => exact .inr hmem

/-- A connection that its handle does not name is abandoned, or its thread is about to close it. -/
theorem mem_abandoned {fd : Int} : (fd ∈ s.outgoing → fd ≠ s.sendFd →
      s.connect = .closing fd ∨ fd ∈ s.abandoned) ∧
    (fd ∈ s.incoming → fd ≠ s.clientSocket → s.server = .closing fd ∨ fd ∈ s.abandoned) := by
  constructor
  · intro hmem hne
    exact (mem_others_connect hmem s.connect).imp_right fun hother =>
      List.mem_append_left _ (List.mem_filter.mpr ⟨hother, decide_eq_true hne⟩)
  · intro hmem hne
    exact (mem_others_server hmem s.server).imp_right fun hother =>
      List.mem_append_right _ (List.mem_filter.mpr ⟨hother, decide_eq_true hne⟩)

/-- The connections that were overwritten in a run. -/
def overwritten (turns : List Turn) : List Int :=
  observe step (fun t s gone => abandons t s ++ gone) turns start []

/-- **Connections are abandoned, never confused**: in every run, the open connections that no
handle names and no thread is about to close are those whose handle was overwritten while they were
open, before their thread had loaded it to close it; so that every open connection is named by its
handle, about to be closed or one of these. And a thread closes nothing but a connection of its
own. -/
theorem connections_abandoned {turns : List Turn} (h : runAll step turns start = some s) :
    s.abandoned.Perm (overwritten turns) ∧
      (∀ fd ∈ s.outgoing, fd = s.sendFd ∨ s.connect = .closing fd ∨ fd ∈ overwritten turns) ∧
      (∀ fd ∈ s.incoming, fd = s.clientSocket ∨ s.server = .closing fd ∨ fd ∈ overwritten turns) ∧
      Along step ClosesOwn turns start := by
  -- the descriptors that no handle names any more are those that were given up, in any order
  have hstep : ∀ t (s s' : State) (gone : List Int), Good s ∧ s.abandoned.Perm gone →
      step t s = some s' → Good s' ∧ s'.abandoned.Perm (abandons t s ++ gone) := by
    rintro t s s' gone ⟨hgood, hperm⟩ hturn
    obtain ⟨hgood', hperm'⟩ := moved_step hgood hturn
    exact ⟨hgood', hperm'.trans (hperm.append_left _)⟩
  have hperm : s.abandoned.Perm (overwritten turns) :=
    (observe_inv hstep ⟨good_start, .refl _⟩ h).2
  refine ⟨hperm, fun fd hfd => ?_, fun fd hfd => ?_, ?_⟩
  · by_cases hne : fd = s.sendFd
    · exact .inl hne
    · exact .inr ((mem_abandoned.1 hfd hne).imp_right hperm.mem_iff.mp)
  · by_cases hne : fd = s.clientSocket
    · exact .inl hne
    · exact .inr ((mem_abandoned.2 hfd hne).imp_right hperm.mem_iff.mp)
  · exact along_of_inv (fun t s s' hgood hturn => (moved_step hgood hturn).good)
      (fun t _ s hgood => closesOwn_of_good hgood t) good_start

/-- Two heartbeats that fail, each on a connection of its own; a third, once the thread has loaded
its descriptor to close it. -/
theorem connections_abandoned_two :
    let turns := [.mutilcast 1, .mutilcast 0,
      .connect 0, .connect 7, .connect 0, .heart true, .heart false, .heart true,
      .connect 0, .connect 0, .connect 0,
      .mutilcast 1, .mutilcast 0,
      .connect 0, .connect 8, .connect 0, .heart true, .heart false, .heart true,
      .connect 0, .connect 0, .connect 0,
      .mutilcast 1, .mutilcast 0,
      .connect 0, .connect 9, .connect 0, .connect 0, .connect 0, .connect 0,
      .heart true, .heart false, .heart true]
    ∃ s, runAll step turns start = some s ∧ s.outgoing = [9, 8, 7] ∧ s.sendFd = -1 ∧
      s.connect = .closing 9 ∧ s.abandoned = [8, 7] ∧ s.abandoned.Perm (overwritten turns) ∧
      Along step ClosesOwn turns start := by
  intro turns
  obtain ⟨hperm, -, -, hcloses⟩ := @connections_abandoned _ turns rfl
  -- the run computes; what was overwritten is compared as a permutation
  exact ⟨_, rfl, rfl, rfl, rfl, by decide, hperm, hcloses⟩

/-! ## The link -/

/-- Of the seconds since a server was heard of: a section of `client_mutilcast` that ends, or a
second of the guard. -/
def heard : Turn → State → Option Nat → Option Nat
  | .mutilcast _, s, n => if s.mutilcast = .updating then some 0 else n
  | .guard, s, n => if s.guard = .sleeping then n.map (· + 1) else n
  | _, _, n => n

/-- What the guard knows. -/
structure Heard (s : State) (n : Option Nat) : Prop where
  /-- One thread has the mutex. -/
  mutex : s.guard = .sleeping ∨ s.mutilcast = .receiving
  timeout : ∀ k, n = some k → s.timeAliveTimeout = k
  never : n = none → s.linkOn = false
  awake : s.guard ≠ .sleeping → s.linkOn = true ∧ ∃ k, n = some k ∧ 5 ≤ k
  asleep : s.guard = .sleeping → ∀ k, n = some k → (s.linkOn = true ↔ k < 5)

theorem heard_start : Heard start none where
  mutex := .inl rfl
  timeout k h := by cases h
  never _ := rfl
  awake h := absurd rfl h
  asleep _ k h := by cases h

/-- A turn that leaves alone what is under the mutex. -/
theorem Heard.of_same {n : Option Nat} (h : Heard s n) (hm : s'.mutilcast = s.mutilcast)
    (hg : s'.guard = s.guard) (hl : s'.linkOn = s.linkOn)
    (ht : s'.timeAliveTimeout = s.timeAliveTimeout) : Heard s' n :=
  ⟨hm ▸ hg ▸ h.mutex, ht ▸ h.timeout, hl ▸ h.never, hl ▸ hg ▸ h.awake, hl ▸ hg ▸ h.asleep⟩

theorem Heard.mutilcast {n : Option Nat} {ip : Nat} (h : Heard s n)
    (hturn : mutilcastTurn ip s = some s') : Heard s' (heard (.mutilcast ip) s n) := by
  cases hat : s.mutilcast with
  | receiving =>
    rw [mutilcastTurn, hat] at hturn
    dsimp only at hturn
    rw [heard, if_neg (by rw [hat]; decide)]
    split at hturn
    · next hsleep =>
      cases hturn
      exact ⟨.inl hsleep, h.timeout, h.never, h.awake, h.asleep⟩
    · cases hturn
  | updating =>
    rw [mutilcastTurn, hat] at hturn
    rw [heard, if_pos hat]
    cases hturn
    -- the two threads exclude each other: while one updates, the other sleeps
    have hsleep : s.guard = .sleeping := h.mutex.resolve_right (by rw [hat]; decide)
    refine ⟨.inl hsleep, fun k hk => Option.some.inj hk, fun h => (by cases h),
      fun hwake => absurd hsleep hwake, fun _ k hk => ?_⟩
    have hk0 : 0 = k := Option.some.inj hk
    exact ⟨fun _ => by omega, fun _ => rfl⟩

theorem Heard.guard {n : Option Nat} (h : Heard s n) (hturn : guardTurn s = some s') :
    Heard s' (heard .guard s n) := by
  cases hat : s.guard with
  | sleeping =>
    rw [guardTurn, hat] at hturn
    dsimp only at hturn
    rw [heard, if_pos hat]
    split at hturn
    · next hfree =>
      cases hturn
      -- a second is over
      have hcount : ∀ k, n.map (· + 1) = some k → s.timeAliveTimeout + 1 = k := by
        intro k hk
        obtain ⟨m, hm, rfl⟩ := Option.map_eq_some_iff.mp hk
        rw [h.timeout m hm]
      refine ⟨.inr hfree, hcount, fun hn => h.never (Option.map_eq_none_iff.mp hn), ?_, ?_⟩
      · intro hwake
        dsimp only at hwake
        split at hwake
        · next hdown =>
          refine ⟨hdown.2, ?_⟩
          cases hn : n with
          | none =>
            rw [h.never hn] at hdown
            exact absurd hdown.2 Bool.false_ne_true
          | some m => exact ⟨m + 1, rfl, h.timeout m hn ▸ hdown.1⟩
        · exact absurd rfl hwake
      · intro hsleep k hk
        dsimp only at hsleep
        split at hsleep
        · cases hsleep
        · next hup =>
          have htime := hcount k hk
          obtain ⟨m, hm, rfl⟩ := Option.map_eq_some_iff.mp hk
          have hbefore := h.asleep hat m hm
          constructor
          · intro hon
            have hshort : ¬5 ≤ s.timeAliveTimeout + 1 := fun h5 => hup ⟨h5, hon⟩
            omega
          · intro hlt
            exact hbefore.mpr (by omega)
    · cases hturn
  | linkDown =>
    rw [guardTurn, hat] at hturn
    rw [heard, if_neg (by rw [hat]; decide)]
    cases hturn
    obtain ⟨-, k, rfl, hk⟩ := h.awake (by rw [hat]; decide)
    refine ⟨.inl rfl, h.timeout, fun h => (by cases h), fun hwake => absurd rfl hwake, ?_⟩
    intro _ m hm
    obtain rfl := Option.some.inj hm
    exact ⟨fun h => absurd h Bool.false_ne_true, fun h => absurd hk (by omega)⟩
  | _ =>
    rw [guardTurn, hat] at hturn
    rw [heard, if_neg (by rw [hat]; decide)]
    cases hturn
    have hwake := h.awake (by rw [hat]; decide)
    have hfree : s.mutilcast = .receiving := h.mutex.resolve_left (by rw [hat]; decide)
    refine ⟨.inr hfree, h.timeout, h.never, fun _ => hwake, ?_⟩
    intro hsleep
    first
    | cases hsleep
    | (dsimp only at hsleep; split at hsleep <;> cases hsleep)

theorem Heard.turn {t : Turn} {n : Option Nat} (h : Heard s n) (hturn : step t s = some s') :
    Heard s' (heard t s n) := by
  cases t with
  | mutilcast ip => exact h.mutilcast hturn
  | guard => exact h.guard hturn
  | heart sent =>
    -- the remaining threads leave both alone
    have hturn : heartTurn sent s = some s' := hturn
    unfold heartTurn at hturn
    split at hturn <;> cases hturn <;> exact h.of_same rfl rfl rfl rfl
  | connect r =>
    have hturn : connectTurn r s = some s' := hturn
    unfold connectTurn at hturn
    split at hturn <;> try split at hturn
    all_goals try split at hturn
    all_goals cases hturn
    all_goals exact h.of_same rfl rfl rfl rfl
  | server r =>
    have hturn : serverTurn r s = some s' := hturn
    unfold serverTurn at hturn
    split at hturn <;> try split at hturn
    all_goals try split at hturn
    all_goals cases hturn
    all_goals exact h.of_same rfl rfl rfl rfl

/-- **The link is on while the server is heard of**: wherever the guard sleeps. -/
theorem link_heard {turns : List Turn} (h : runAll step turns start = some s)
    (hsleep : s.guard = .sleeping) :
    s.linkOn = true ↔ ∃ k < 5, observe step heard turns start none = some k := by
  have hstep : ∀ t (s s' : State) n, Heard s n → step t s = some s' → Heard s' (heard t s n) :=
    fun _ _ _ _ hs hturn => hs.turn hturn
  have hheard := observe_inv hstep heard_start h
  cases hn : observe step heard turns start none with
  | none => simp [hheard.never hn]
  | some k => simp [hheard.asleep hsleep k hn]

/-- Four seconds after a datagram. -/
theorem link_heard_four :
    let turns := [.mutilcast 1, .mutilcast 0, .guard, .guard, .guard, .guard]
    ∃ s, runAll step turns start = some s ∧ s.linkOn = true ∧
      (s.linkOn = true ↔ ∃ k < 5, observe step heard turns start none = some k) := by
  intro turns
  exact ⟨_, rfl, rfl, @link_heard _ turns rfl rfl⟩

/-! ## Connecting -/

def GuardAt.rank : GuardAt → Nat
  | .sleeping => 0
  | .linkDown => 1
  | .dropClient => 2
  | .checkClient => 3
  | .dropSend => 4
  | .checkSend => 5
  | .clearing => 6

def HeartAt.rank : HeartAt → Nat
  | .idle => 0
  | .dropping => 1
  | .sending => 2

def ConnectAt.rank : ConnectAt → Nat
  | .waiting => 0
  | .clearing => 1
  | .forgetting => 2
  | .closing _ => 3
  | .loading => 4
  | .closeCheck => 5
  | .receiving => 6
  | .checking => 7
  | .connecting => 8

/-- How far the threads are from waiting for a server. -/
def State.rank (s : State) : Nat :=
  s.guard.rank + (if s.mutilcast = .updating then 1 else 0) + s.heart.rank + s.connect.rank

theorem guard_down (hguard : s.guard ≠ .sleeping) :
    ∃ s', guardTurn s = some s' ∧ s'.rank < s.rank := by
  cases hat : s.guard with
  | sleeping => exact absurd hat hguard
  | checkSend => by_cases hnone : s.sendFd = -1 <;>
      simp [guardTurn, hat, hnone, State.rank, GuardAt.rank]
  | checkClient => by_cases hnone : s.clientSocket = -1 <;>
      simp [guardTurn, hat, hnone, State.rank, GuardAt.rank]
  | _ => simp [guardTurn, hat, State.rank, GuardAt.rank]

theorem heart_down (hheart : s.heart ≠ .idle) :
    ∃ s', heartTurn true s = some s' ∧ s'.rank < s.rank := by
  cases hat : s.heart with
  | idle => exact absurd hat hheart
  | sending => by_cases hnone : s.sendFd = -1 <;>
      simp [heartTurn, hat, hnone, State.rank, HeartAt.rank]
  | dropping => simp [heartTurn, hat, State.rank, HeartAt.rank]

/-- A call that fails takes the thread back to where it waits. -/
theorem connect_down (hconnect : s.connect ≠ .waiting) :
    ∃ s', connectTurn (-1) s = some s' ∧ s'.rank < s.rank := by
  cases hat : s.connect with
  | waiting => exact absurd hat hconnect
  | checking => by_cases hnone : s.sendFd = -1 <;>
      simp [connectTurn, hat, hnone, State.rank, ConnectAt.rank]
  | closeCheck => by_cases hnone : s.sendFd = -1 <;>
      simp [connectTurn, hat, hnone, State.rank, ConnectAt.rank]
  | closing fd => simp [connectTurn, hat, State.rank, ConnectAt.rank, State.close]
  | _ => simp [connectTurn, hat, State.rank, ConnectAt.rank]

/-- Some thread can go on, whoever has the mutex. -/
theorem exists_turn (hrank : 0 < s.rank) : ∃ t s', step t s = some s' ∧ s'.rank < s.rank := by
  -- the guard first, then the thread that holds the mutex, the heartbeat, and at last the
  -- connection
  by_cases hguard : s.guard = .sleeping
  · cases hm : s.mutilcast with
    | updating => exact ⟨.mutilcast 0, by simp [step, mutilcastTurn, hm, State.rank]⟩
    | receiving =>
      by_cases hheart : s.heart = .idle
      · refine ⟨.connect (-1), connect_down fun hconnect => ?_⟩
        rw [State.rank, hguard, hm, hheart, hconnect] at hrank
        exact absurd hrank (by decide)
      · exact ⟨.heart true, heart_down hheart⟩
  · exact ⟨.guard, guard_down hguard⟩

/-- Where they are when they wait. -/
theorem resting_of_rank (h : s.rank = 0) : s.guard = .sleeping ∧ s.mutilcast = .receiving ∧
    s.connect = .waiting := by
  -- the rank is a sum of parts, of which only the receiver's is not a rank of its own
  have hzero : s.guard.rank = 0 ∧ s.mutilcast ≠ .updating ∧ s.connect.rank = 0 := by
    unfold State.rank at h
    split at h
    · omega
    · next hm => exact ⟨by omega, hm, by omega⟩
  obtain ⟨hguard, hm, hconnect⟩ := hzero
  -- each thread has one place of rank 0
  refine ⟨?_, ?_, ?_⟩
  · cases hat : s.guard <;> rw [hat] at hguard <;> first | rfl | cases hguard
  · cases hat : s.mutilcast with
    | receiving => rfl
    | updating => exact absurd hat hm
  · cases hat : s.connect <;> rw [hat] at hconnect <;> first | rfl | cases hconnect

/-- There is always a new descriptor. -/
theorem exists_fresh (s : State) : ∃ fd, s.fresh fd := by
  obtain ⟨n, hn⟩ := Infinite.exists_notMem_finset ((s.outgoing ++ s.incoming).map Int.toNat).toFinset
  rw [List.mem_toFinset, List.mem_map, not_exists] at hn
  have hnot (fds : List Int) (hsub : fds ⊆ s.outgoing ++ s.incoming) : (n : Int) ∉ fds :=
    fun hmem => hn n ⟨hsub hmem, Int.toNat_natCast n⟩
  exact ⟨n, by omega, hnot _ (List.subset_append_left _ _), hnot _ (List.subset_append_right _ _)⟩

/-- **The client can always connect**: from every state of every run, the threads can go on so that
a server is heard of and connected to. -/
theorem can_connect {turns : List Turn} (h : runAll step turns start = some s) :
    ∃ more s', runAll step more s = some s' ∧ s'.connect = .receiving ∧
      s'.sendFd ∈ s'.outgoing ∧ s'.linkOn = true := by
  have hstep : ∀ t (s s' : State) n, Heard s n → step t s = some s' → Heard s' (heard t s n) :=
    fun _ _ _ _ hs hturn => hs.turn hturn
  have hdown : ∀ s, (∃ n, Heard s n) → 0 < s.rank →
      ∃ t s', step t s = some s' ∧ (∃ n, Heard s' n) ∧ s'.rank < s.rank := by
    rintro s ⟨n, hn⟩ hrank
    obtain ⟨t, s', hturn, hlt⟩ := exists_turn hrank
    exact ⟨t, s', hturn, ⟨_, hn.turn hturn⟩, hlt⟩
  -- the threads go back to where they wait
  obtain ⟨wait, s₁, hwait, -, hzero⟩ :=
    exists_run_of_rank State.rank hdown ⟨_, observe_inv hstep heard_start h⟩
  obtain ⟨hguard, hm, hconnect⟩ := resting_of_rank hzero
  -- a datagram comes in, and a connection is made
  obtain ⟨fd, hfd⟩ := exists_fresh s₁
  have hne : fd ≠ -1 := by have := hfd.1; omega
  obtain ⟨s', hrun, hs'⟩ : ∃ s', runAll step
      [.mutilcast 1, .mutilcast 1, .connect 0, .connect fd, .connect 0] s₁ = some s' ∧
      s'.connect = .receiving ∧ s'.sendFd ∈ s'.outgoing ∧ s'.linkOn = true := by
    have hopen : ¬(fd ∈ s₁.outgoing) ∧ ¬(fd ∈ s₁.incoming) := hfd.2
    simp [runAll, step, mutilcastTurn, hguard, hm, connectTurn, hconnect, hne, State.fresh, hfd.1,
      hopen]
  refine ⟨wait ++ [.mutilcast 1, .mutilcast 1, .connect 0, .connect fd, .connect 0], s', ?_, hs'⟩
  rw [runAll_append, hwait]
  exact hrun

/-- From a section of `client_mutilcast`. -/
theorem can_connect_updating :
    ∃ more s', runAll step more { start with serverIp := 1, mutilcast := .updating } = some s' ∧
      s'.connect = .receiving ∧ s'.sendFd ∈ s'.outgoing ∧ s'.linkOn = true :=
  @can_connect _ [.mutilcast 1] rfl

end PgClient.Client.Link
