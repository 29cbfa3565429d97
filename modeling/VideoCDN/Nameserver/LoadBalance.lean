import VideoCDN.Lib.HopGraph
import VideoCDN.Nameserver.Queue
import VideoCDN.Nameserver.Topology

/-!
# The routing table

`load_balance.c`: a breadth-first search from every client to its nearest server, over the
node lists and with the linked queue. Reading a slot nothing was written to, and printing
the client after the last one, have no result.
-/

namespace VideoCDN.Nameserver

open CString

/-- A `routing_table_entry`; a field nothing was copied to is `none`. -/
structure RoutingTableEntry where
  clientIp : Option (List UInt8)
  serverIp : Option (List UInt8)
  deriving DecidableEq, Repr

/-- The queue of one search: header and tail are the cells 0 and 1, `malloc` returns the next
ones. -/
structure SearchQueue where
  mem : QueueMem
  next : Nat

def initQueue : SearchQueue :=
  ⟨fun a => if a = 0 then ⟨0, some 1, none⟩ else ⟨0, none, some 0⟩, 2⟩

/-- Pushes a new queue node that carries `n`. -/
def SearchQueue.push (q : SearchQueue) (n : Nat) : Option SearchQueue := do
  let mem ← pushBack (Function.update q.mem q.next ⟨n, none, none⟩) 1 q.next
  return ⟨mem, q.next + 1⟩

def visit (t : Topo) (p : Nat) : Topo :=
  { t with heap := Function.update t.heap p { t.heap p with visited := true } }

/-- The pointer in slot `i` of the neighbors of `n`. -/
def neighborAt (t : Topo) (n i : Nat) : Option Nat :=
  match (t.heap n).neighbors[i]? with
  | some (.filled p) => some p
  | _ => none

def isServer (t : Topo) (p : Nat) : Bool :=
  (existInList t.heap (t.heap p).ip t.servers.header).isSome

/-- The loop over the neighbors of `n` from slot `i - 1` down, until a server is found. -/
def scanNeighbors (n : Nat) : Nat → Topo → SearchQueue → Option (Topo × SearchQueue × Option (List UInt8))
  | 0, t, q => some (t, q, none)
  | i + 1, t, q => do
    let p ← neighborAt t n i
    if (t.heap p).visited then scanNeighbors n i t q
    else if isServer t p then return (t, q, some (t.heap p).ip)
    else
      let q ← q.push p
      scanNeighbors n i (visit t p) q

/-- The search loop. Every node enters the queue at most once, so their number is enough fuel. -/
def searchLoop : Nat → Topo → SearchQueue → Option (Topo × Option (List UInt8))
  | 0, _, _ => none
  | fuel + 1, t, q =>
    if isEmpty q.mem 0 1 then some (t, none)
    else do
      let (mem, now) ← popFront q.mem 0
      let n := (mem now).n
      let (t, q, serverIp) ← scanNeighbors n (t.heap n).neighborNum.toNat t ⟨mem, q.next⟩
      if serverIp.isSome then return (t, serverIp)
      searchLoop fuel t q

/-- Clears the marks of the listed nodes. -/
def clearVisited (t : Topo) : Topo :=
  { t with heap := fun p => if p ∈ t.nodes.header then { t.heap p with visited := false } else t.heap p }

def bfs (t : Topo) (now : Nat) : Option (Topo × Option (List UInt8)) := do
  let t := visit (clearVisited t) now
  let q ← initQueue.push now
  searchLoop (t.nodes.header.length + 1) t q

def setClientIp (table : List RoutingTableEntry) (i : Nat) (ip : List UInt8) :
    Option (List RoutingTableEntry) := do
  let e ← table[i]?
  return table.set i { e with clientIp := some ip }

def setServerIp (table : List RoutingTableEntry) (i : Nat) (ip : List UInt8) :
    Option (List RoutingTableEntry) := do
  let e ← table[i]?
  return table.set i { e with serverIp := some ip }

/-- Nodes that get no entry of their own. -/
def skipped (t : Topo) (client : Nat) : Bool :=
  isServer t client || (t.heap client).ip.head? = some 114 || (t.heap client).neighborNum = 0

/-- The loop over the nodes list. A null server address is printed as "(null)". -/
def routeLoop : List Nat → Nat → Topo → List RoutingTableEntry → Option (Topo × List RoutingTableEntry)
  | [], _, t, table => some (t, table)
  | client :: rest, cnt, t, table => do
    let table ← setClientIp table cnt (t.heap client).ip
    if skipped t client then routeLoop rest cnt t table
    else
      let (t, serverIp) ← bfs t client
      let first ← t.servers.header.head?
      let table ← setServerIp table cnt (serverIp.getD (t.heap first).ip)
      let _client ← rest.head?
      routeLoop rest (cnt + 1) t table

/-- The returned value, the nodes and `routing_table`, `none` when it was not allocated. -/
def buildRoutingTable (t : Topo) : Option (Int × Topo × Option (List RoutingTableEntry)) :=
  if t.clients.num ≤ 0 ∨ t.servers.num ≤ 0 ∨ t.nodes.num ≤ 0 ∨ t.nodes.header = [] ∨
      t.servers.header = [] ∨ t.clients.header = [] then
    some (1, t, none)
  else do
    let (t, table) ← routeLoop t.nodes.header 0 t (List.replicate t.nodes.num ⟨none, none⟩)
    return (0, t, some table)

end VideoCDN.Nameserver
