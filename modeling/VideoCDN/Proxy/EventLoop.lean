import Mathlib.Data.Finset.Card
import Mathlib.Data.List.Dedup
import VideoCDN.Lib.LinkedList

/-!
# The event loop of the proxy

`proxy_run`: the list of connections, the set of watched descriptors and the walk over the list
in a round. What the system calls and the handlers return is given with the round.
-/

namespace VideoCDN.Proxy.EventLoop

open LinkedList

/-- `FD_SETSIZE`. -/
def fdSetSize : Nat := 1024

/-- The descriptors and the links of a connection. -/
structure Conn where
  browserFd : Nat
  serverFd : Nat
  prev : Option Nat
  next : Option Nat

def proxyConnInit : Conn := ⟨0, 0, none, none⟩

structure LoopConfig where
  ready : Finset Nat
  fdMax : Nat
  listConn : Option Nat

/-- The address of a connection is its place in `heap`; none is ever freed. The descriptors the
process has open are `held`. -/
structure LoopState where
  config : LoopConfig
  heap : List Conn
  held : Finset Nat

/-- What `socket`, `bind`, and then `resolve` and `connect` do for `proxy_connect_server`. -/
inductive ServerSocket
  | noSocket
  | noBind (sock : Nat)
  | noConnect (sock : Nat)
  | connected (sock : Nat)

/-- What the calls of a round return; the handlers are counted in the order of the calls. -/
structure Round where
  ready : Finset Nat
  readyNum : Int
  malloc : Bool
  accept : Option Nat
  server : ServerSocket
  handlerBrowser : Nat → Int
  handlerServer : Nat → Int

/-- A call of `proxy_handle_conn`: what the handlers returned that it called. -/
structure Handled where
  conn : Nat
  browser : Option Int
  server : Option Int

structure RoundResult where
  state : LoopState
  handled : List Handled
  running : Bool

/-! ## The functions -/

/-- A write through a pointer to a connection. -/
def LoopState.update (s : LoopState) (conn : Nat) (f : Conn → Conn) : Option LoopState :=
  if conn < s.heap.length then some { s with heap := s.heap.modify conn f } else none

/-- A write through a pointer that may be null, in which case there is none. -/
def LoopState.updateIf (s : LoopState) : Option Nat → (Conn → Conn) → Option LoopState
  | none, _ => some s
  | some conn, f => s.update conn f

/-- `FD_SET`, with `fd_max` raised when it has to be. -/
def LoopState.watch (s : LoopState) (fd : Nat) : Option LoopState :=
  if fd < fdSetSize then
    some { s with config := { s.config with
      ready := insert fd s.config.ready
      fdMax := if s.config.fdMax ≤ fd then fd + 1 else s.config.fdMax } }
  else none

/-- `close` and `FD_CLR`. -/
def LoopState.release (s : LoopState) (fd : Nat) : LoopState :=
  { s with config := { s.config with ready := s.config.ready.erase fd }, held := s.held.erase fd }

def proxySetupListen (held : Finset Nat) (socket : Option Nat) (bind listen : Bool) :
    Option (Nat × LoopState) := do
  let sock ← socket
  let s ← LoopState.watch ⟨⟨∅, 0, none⟩, [], insert sock held⟩ sock
  if bind && listen then some (sock, s) else none

def proxyConnectServer (s : LoopState) (conn : Nat) : ServerSocket → Option LoopState
  | .noSocket => some s
  | .noBind sock => some { s with held := (insert sock s.held).erase sock }
  | .noConnect sock => some { s with held := (insert sock s.held).erase sock }
  | .connected sock => do
    let s ← LoopState.watch { s with held := insert sock s.held } sock
    s.update conn fun c => { c with serverFd := sock }

def proxyInsertConn (s : LoopState) (conn : Nat) (server : ServerSocket) : Option LoopState := do
  let s ← proxyConnectServer s conn server
  let temp := s.config.listConn
  let s ← LoopState.update { s with config := { s.config with listConn := some conn } } conn
    fun c => { c with next := temp }
  s.updateIf temp fun c => { c with prev := some conn }

def proxyRemoveConn (s : LoopState) (conn : Nat) : Option LoopState := do
  let c ← s.heap[conn]?
  let s ← s.updateIf c.prev fun d => { d with next := c.next }
  let s ← s.updateIf c.next fun d => { d with prev := c.prev }
  if c.prev = none then some { s with config := { s.config with listConn := c.next } } else some s

def proxyConnCreate (s : LoopState) (conn : Nat) (accept : Option Nat) (server : ServerSocket) :
    Option LoopState :=
  match accept with
  | none => some s
  | some browserSock => do
    let s ← LoopState.update { s with held := insert browserSock s.held } conn
      fun c => { c with browserFd := browserSock }
    let s ← s.watch browserSock
    proxyInsertConn s conn server

/-- A socket of a connection is closed if it is open; `clear` sets its field to zero. -/
def LoopState.closeFd (s : LoopState) (conn fd : Nat) (clear : Conn → Conn) : Option LoopState :=
  if fd ≠ 0 then (s.release fd).update conn clear else some s

def proxyConnClose (s : LoopState) (conn : Nat) : Option LoopState := do
  let c ← s.heap[conn]?
  let s ← s.closeFd conn c.browserFd fun d => { d with browserFd := 0 }
  let s ← s.closeFd conn c.serverFd fun d => { d with serverFd := 0 }
  proxyRemoveConn s conn

/-- The handler of the server is not called when that of the browser failed. -/
def proxyHandleConn (conn : Nat) (handlerBrowser handlerServer : Int) (browser server : Bool) : Int × Handled :=
  if browser ∧ handlerBrowser < 0 then (-1, ⟨conn, some handlerBrowser, none⟩)
  else
    let called := if browser then some handlerBrowser else none
    if server ∧ handlerServer < 0 then (-1, ⟨conn, called, some handlerServer⟩)
    else (0, ⟨conn, called, if server then some handlerServer else none⟩)

/-- The walk over the list in a round, with the calls made so far. -/
def walk (round : Round) : Nat → Option Nat → Int → LoopState → List Handled → Option (LoopState × List Handled)
  | _, none, _, s, handled => some (s, handled)
  | 0, some _, readyNum, s, handled => if 0 < readyNum then none else some (s, handled)
  | fuel + 1, some curr, readyNum, s, handled =>
    if 0 < readyNum then do
      let c ← s.heap[curr]?
      let browser := decide (c.browserFd ∈ round.ready)
      let server := decide (c.serverFd ∈ round.ready)
      let readyNum := readyNum - browser.toNat - server.toNat
      if browser ∨ server then
        let (ret, call) := proxyHandleConn curr (round.handlerBrowser handled.length)
          (round.handlerServer handled.length) browser server
        let s ← if ret < 0 then proxyConnClose s curr else some s
        let c ← s.heap[curr]?
        walk round fuel c.next readyNum s (handled ++ [call])
      else walk round fuel c.next readyNum s handled
    else some (s, handled)

/-- The first part of a round: a connection is accepted when the listening socket is ready. -/
def LoopState.acceptNew (s : LoopState) (round : Round) (isNew : Bool) : Option LoopState :=
  if isNew ∧ round.malloc then
    proxyConnCreate { s with heap := s.heap ++ [proxyConnInit] } s.heap.length round.accept round.server
  else some s

/-- A round of the loop; it ends when `select` fails. -/
def proxyRound (sock : Nat) (s : LoopState) (round : Round) : Option RoundResult :=
  if round.readyNum < 0 then some ⟨s, [], false⟩
  else if round.readyNum = 0 then some ⟨s, [], true⟩
  else do
    let isNew := decide (sock ∈ round.ready)
    let s ← s.acceptNew round isNew
    let r ← walk round s.heap.length s.config.listConn (round.readyNum - isNew.toNat) s []
    return ⟨r.1, r.2, true⟩

/-! ## Runs -/

/-- The descriptor of the server's socket. -/
def ServerSocket.fd : ServerSocket → Option Nat
  | .noSocket => none
  | .noBind sock => some sock
  | .noConnect sock => some sock
  | .connected sock => some sock

/-- A new descriptor is not zero, fits a set of descriptors and is not in use. -/
structure Fresh (held : Finset Nat) (fd : Nat) : Prop where
  ne_zero : fd ≠ 0
  lt : fd < fdSetSize
  unused : fd ∉ held

/-- What the system calls of a round promise. -/
structure SystemCalls (s : LoopState) (round : Round) : Prop where
  watched : round.ready ⊆ s.config.ready
  size : round.readyNum = round.ready.card
  accept : ∀ fd, round.accept = some fd → Fresh s.held fd
  socket : ∀ fd, round.accept = some fd → ∀ sock, round.server.fd = some sock → Fresh (insert fd s.held) sock

/-- The states between the rounds, from the set up on. -/
inductive Reachable (held : Finset Nat) (sock : Nat) : LoopState → Prop
  | listen {socket : Option Nat} {bind listen : Bool} {s : LoopState}
      (hfresh : ∀ fd, socket = some fd → Fresh held fd)
      (h : proxySetupListen held socket bind listen = some (sock, s)) : Reachable held sock s
  | round {s : LoopState} {round : Round} {result : RoundResult} (h : Reachable held sock s)
      (hcalls : SystemCalls s round) (hround : proxyRound sock s round = some result)
      (hrunning : result.running = true) : Reachable held sock result.state

end VideoCDN.Proxy.EventLoop
