import Mathlib.Logic.Function.Basic
import RfnmDriver.Library.StepSystem

/-!
# The data connection of `rfnm_eth.c`

One connection at a time, shared by the ingest worker and the TX worker of `tcp_data`. The accept
thread replaces it, module unload closes it, and the ingest worker drops it when the peer closes;
whoever un-publishes it (`conn_sock`) leaves it to the two workers to release (`dead_sock`,
`dead_users`). An event is one section under `conn_lock`, or one access outside of it. A socket is
named by the number of sockets accepted before it. Read `next` first.
-/

namespace RfnmDriver.Eth

/-- The callers of `close_connection_safe`. -/
inductive Closer
  /-- `tcp_accept_thread`. -/
  | accept
  /-- `destroy_tcp_service`. -/
  | destroy
  deriving DecidableEq, Repr

/-- Where a caller of `close_connection_safe` is. -/
inductive Closing
  | idle
  /-- Has un-published this socket, and slept this often for `dead_sock` to be released. -/
  | retiring (sock : Nat) (waited : Nat)
  /-- Has returned. -/
  | closed
  deriving DecidableEq, Repr

/-- Where the ingest worker is, with its `sock`. -/
inductive Ingest
  | tracking (sock : Option Nat)
  /-- The peer closed the connection; past the locked section that un-publishes it. -/
  | dropping (sock : Nat)
  /-- Has found the socket in `dead_sock`. -/
  | counted (sock : Nat)
  /-- Its decrement of `dead_users` reached zero. -/
  | releasing (sock : Nat)
  deriving DecidableEq, Repr

/-- `struct tcp_service` of the data port, and its threads. -/
structure Service where
  connSock : Option Nat
  deadSock : Option Nat
  deadUsers : Int
  ingest : Ingest
  /-- `sock` of `tcp_data_tx_worker`. -/
  tx : Option Nat
  closer : Closer → Closing
  /-- How many sockets have been accepted. -/
  accepted : Nat
  /-- The sockets that were un-published. -/
  retired : List Nat
  /-- The sockets passed to `sock_release`. -/
  released : List Nat

/-- One step of one thread. -/
inductive Event
  /-- The first locked section of `close_connection_safe`. -/
  | unpublish (closer : Closer)
  /-- `dead_sock` is not released yet: another 10 ms. -/
  | wait (closer : Closer)
  /-- The last locked section of `close_connection_safe`. -/
  | retire (closer : Closer)
  /-- The accept thread sets the new connection. -/
  | publish
  /-- `tcp_worker_track_sock` of the ingest worker. -/
  | trackIngest
  /-- `tcp_worker_track_sock` of the TX worker. -/
  | trackTx
  /-- The ingest worker received 0: its locked section. -/
  | peerClosed
  /-- It compares `dead_sock` with its socket. -/
  | compare
  /-- `atomic_dec_and_test`. -/
  | decrement
  /-- It releases `dead_sock`. -/
  | release
  deriving DecidableEq, Repr

/-- `create_tcp_service`. -/
def Service.init : Service where
  connSock := none
  deadSock := none
  deadUsers := 0
  ingest := .tracking none
  tx := none
  closer := fun _ => .idle
  accepted := 0
  retired := []
  released := []

/-- A thread's place after a step of `close_connection_safe`. -/
def Service.goto (service : Service) (closer : Closer) (place : Closing) : Service :=
  { service with closer := Function.update service.closer closer place }

/-- `conn_sock` is cleared. -/
def Service.unpublishSock (service : Service) (sock : Nat) : Service :=
  { service with connSock := none, retired := sock :: service.retired }

/-- `dead_sock` and `dead_users` are set. -/
def Service.retireSock (service : Service) (sock : Nat) : Service :=
  { service with deadSock := some sock, deadUsers := 2 }

/-- `sock_release(dead_sock)`. -/
def Service.releaseDead (service : Service) (sock : Nat) : Service :=
  { service with deadSock := none, released := sock :: service.released }

/-- `tcp_worker_track_sock` drops this socket: the last user releases it. -/
def Service.dropSock (service : Service) (sock : Nat) : Service :=
  if service.deadSock = some sock then
    let counted := { service with deadUsers := service.deadUsers - 1 }
    if counted.deadUsers = 0 then counted.releaseDead sock else counted
  else service

/-- What `tcp_worker_track_sock` does to the service for a worker that has this socket. -/
def Service.track (service : Service) (held : Option Nat) : Service :=
  if held = service.connSock then service
  else
    match held with
    | some sock => service.dropSock sock
    | none => service

/-- One step; `none` says that the thread is not where the event needs it. -/
def next (service : Service) : Event → Option Service
  | .unpublish closer =>
      match service.closer closer with
      | .idle =>
          match service.connSock with
          | some sock => some ((service.unpublishSock sock).goto closer (.retiring sock 0))
          | none => some (service.goto closer .closed)
      | _ => none
  | .wait closer =>
      match service.closer closer with
      | .retiring sock waited =>
          if service.deadSock ≠ none ∧ waited < 50 then
            some (service.goto closer (.retiring sock (waited + 1)))
          else none
      | _ => none
  | .retire closer =>
      match service.closer closer with
      | .retiring sock waited =>
          if service.deadSock = none ∨ 50 ≤ waited then
            some ((service.retireSock sock).goto closer .closed)
          else none
      | _ => none
  | .publish =>
      match service.closer .accept with
      | .closed => some { service.goto .accept .idle with
          connSock := some service.accepted, accepted := service.accepted + 1 }
      | _ => none
  | .trackIngest =>
      match service.ingest with
      | .tracking held => some { service.track held with ingest := .tracking service.connSock }
      | _ => none
  | .trackTx => some { service.track service.tx with tx := service.connSock }
  | .peerClosed =>
      match service.ingest with
      | .tracking (some sock) =>
          let dropping := { service with ingest := .dropping sock }
          if service.connSock = some sock then
            let unpublished := dropping.unpublishSock sock
            some (if service.deadSock = none then unpublished.retireSock sock else unpublished)
          else some dropping
      | _ => none
  | .compare =>
      match service.ingest with
      | .dropping sock =>
          some { service with ingest :=
            if service.deadSock = some sock then .counted sock else .tracking none }
      | _ => none
  | .decrement =>
      match service.ingest with
      | .counted sock =>
          some { service with
            deadUsers := service.deadUsers - 1
            ingest := if service.deadUsers - 1 = 0 then .releasing sock else .tracking none }
      | _ => none
  | .release =>
      match service.ingest, service.deadSock with
      | .releasing _, some dead =>
          some { service.releaseDead dead with ingest := .tracking none }
      | _, _ => none

/-! ## What is owed to a retired socket -/

/-- The ingest worker has not dropped the socket. -/
def Ingest.Holds (sock : Nat) : Ingest → Prop
  | .tracking held => held = some sock
  | .dropping held | .counted held => held = sock
  | .releasing _ => False

instance (sock : Nat) (ingest : Ingest) : Decidable (ingest.Holds sock) := by
  cases ingest <;> unfold Ingest.Holds <;> infer_instance

/-- A worker has not dropped the socket. -/
def Service.Held (service : Service) (sock : Nat) : Prop :=
  service.ingest.Holds sock ∨ service.tx = some sock

instance (service : Service) (sock : Nat) : Decidable (service.Held sock) :=
  inferInstanceAs (Decidable (_ ∨ _))

/-- A caller of `close_connection_safe` is on its way to retire the socket. -/
def Service.Retiring (service : Service) (sock : Nat) : Prop :=
  ∃ closer waited, service.closer closer = .retiring sock waited

/-- How many workers have not dropped the socket. -/
def Service.users (service : Service) (sock : Nat) : Int :=
  (if service.ingest.Holds sock then 1 else 0) + if service.tx = some sock then 1 else 0

/-- Retired sockets are released once, and not while a worker holds them; the user count is that
of the workers which still hold the socket; and a retired socket that both workers have dropped
is released, or the ingest worker is about to. -/
structure Service.Retires (service : Service) : Prop where
  once : service.released.Nodup
  retired : ∀ sock ∈ service.released, sock ∈ service.retired
  notHeld : ∀ sock ∈ service.released, ¬ service.Held sock
  counts : ∀ sock, service.deadSock = some sock → service.deadUsers = service.users sock
  reached : ∀ sock ∈ service.retired, ¬ service.Retiring sock → ¬ service.Held sock →
    sock ∈ service.released ∨ service.ingest = .releasing sock ∧ service.deadSock = some sock

/-- The socket a caller of `close_connection_safe` is on its way to retire. -/
def Closing.sock : Closing → Option Nat
  | .retiring sock _ => some sock
  | _ => none

/-- The socket on which the ingest worker may find its peer gone. -/
def Ingest.sock : Ingest → Option Nat
  | .tracking held => held
  | _ => none

/-- When a socket is retired, `dead_sock` is free and both workers have taken the socket and not
dropped it. -/
def Ready (service : Service) : Event → Prop
  | .retire closer => ∀ sock ∈ (service.closer closer).sock,
      service.deadSock = none ∧ service.ingest.Holds sock ∧ service.tx = some sock
  | .peerClosed => ∀ sock ∈ service.ingest.sock, service.connSock = some sock →
      service.deadSock = none ∧ service.tx = some sock
  | _ => True

instance (service : Service) (event : Event) : Decidable (Ready service event) := by
  cases event <;> unfold Ready <;> infer_instance

end RfnmDriver.Eth
