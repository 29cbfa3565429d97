import VideoCDN.Lib.Buffer
import VideoCDN.Lib.CString
import Mathlib.Data.List.Basic

/-!
# The topology of the nameserver

The node lists of `dns/parse.c` and the two parsers that fill them. Nodes are addressed by
numbers in the order of their allocation. Memory that `malloc` returns holds arbitrary
values until it is written; an access outside an array, a store past the end of a buffer or
a null dereference has no result.
-/

namespace VideoCDN.Nameserver

open CString

def maxIpLen : Nat := 36
def maxLineLen : Nat := 4096

/-- A slot of a neighbors array: the pointer written there, or what `malloc` left there, which may be the
pointer to a node. -/
inductive Slot
  | filled (p : Nat)
  | unfilled (p : Option Nat)
  deriving DecidableEq, Repr

/-- The node a slot points to. -/
def Slot.value : Slot → Option Nat
  | .filled p => some p
  | .unfilled p => p

/-- A `node`; `neighbors` lists the slots of the allocated array. -/
structure Node where
  ip : List UInt8
  neighbors : List Slot
  neighborNum : Int
  seqNum : Int
  visited : Bool
  deriving DecidableEq, Repr

/-- A linked list of nodes from its header on, and the global counter beside it. -/
structure NodeList where
  header : List Nat
  num : Nat
  deriving DecidableEq, Repr

/-- The global variables and the heap they point into. -/
structure Topo where
  heap : Nat → Node
  next : Nat
  arrays : Nat
  clients : NodeList
  servers : NodeList
  nodes : NodeList

/-- What `malloc` leaves in the `neighbor_num` of a node and in the slots of an array. -/
structure Junk where
  neighborNum : Nat → Int
  slot : Nat → Nat → Option Nat

/-- Memory that happens to be zero: every number is 0, and every pointer null. -/
def zeroJunk : Junk := ⟨fun _ => 0, fun _ _ => none⟩

def init : Topo :=
  ⟨fun _ => ⟨[], [], 0, 0, false⟩, 0, 0, ⟨[], 0⟩, ⟨[], 0⟩, ⟨[], 0⟩⟩

def existInList (heap : Nat → Node) (ip : List UInt8) (header : List Nat) : Option Nat :=
  header.find? fun pt => (heap pt).ip = ip

variable (junk : Junk)

def newNode (t : Topo) (ip : List UInt8) : Node := ⟨ip, [], junk.neighborNum t.next, -1, false⟩

/-- Adds a node to the list `l`, one of the lists of `t`: the heap, the list and the node. -/
def addNodeByIpWithNum (t : Topo) (ip : List UInt8) (l : NodeList) : Option (Topo × NodeList × Nat) :=
  match existInList t.heap ip l.header with
  | some pt => some (t, l, pt)
  | none =>
    if maxIpLen ≤ ip.length then none
    else some ({ t with heap := Function.update t.heap t.next (newNode junk t ip), next := t.next + 1 },
      ⟨t.next :: l.header, l.num + 1⟩, t.next)

/-- The first comparison that succeeds ends the check, so slots after it are not read. -/
def addReverseNeighbor (t : Topo) (n neighbor : Nat) : Option Topo :=
  let node := t.heap n
  let read := node.neighbors.take node.neighborNum.toNat
  if read.any fun slot => slot.value = some neighbor then some t
  else if node.neighborNum ≠ read.length then none
  else some { t with
    heap := Function.update t.heap n { node with
      neighbors := read ++ [.filled neighbor], neighborNum := node.neighborNum + 1 }
    arrays := t.arrays + 1 }

/-- `n->neighbors[i] = neighbor` -/
def setNeighbor (t : Topo) (n i neighbor : Nat) : Option Topo := do
  let node := t.heap n
  let neighbors ← Buffer.store node.neighbors i (.filled neighbor)
  return { t with heap := Function.update t.heap n { node with neighbors := neighbors } }

/-- The node of a neighbor token, added to `nodes` when it is new. -/
def neighborNode (t : Topo) (neighbor : List UInt8) : Option (Topo × Nat) :=
  match existInList t.heap neighbor t.nodes.header with
  | some thisNeighbor => some (t, thisNeighbor)
  | none => do
    let (t, nodes, thisNeighbor) ← addNodeByIpWithNum junk t neighbor t.nodes
    return ({ t with nodes := nodes }, thisNeighbor)

/-- The body of the neighbor loop: the link to the neighbor and the reverse one. -/
def neighborRound (now i : Nat) (neighbor : List UInt8) (t : Topo) : Option Topo := do
  let (t, thisNeighbor) ← neighborNode junk t neighbor
  let t ← addReverseNeighbor t thisNeighbor now
  setNeighbor t now i thisNeighbor

/-- The rounds of the neighbor loop from `i` on; `tokens` are the results `strtok` has left. -/
def neighborLoop (now : Nat) : Nat → Nat → List (List UInt8) → Topo → Option Topo
  | 0, _, _, t => some t
  | rounds + 1, i, tokens, t => do
    let neighbor ← tokens.head?
    let t ← neighborRound junk now i neighbor t
    neighborLoop now rounds (i + 1) tokens.tail t

def countCharNum (str : List UInt8) (c : UInt8) : Nat := str.count c

/-- The results of `strtok(str, ",")` up to the first null pointer. -/
def strtok (str : List UInt8) : List (List UInt8) := (str.splitOn 44).filter (· ≠ [])

/-- The array `malloc` returns for `n` pointers. -/
def mallocNeighbors (t : Topo) (n : Nat) : List Slot :=
  (List.range n).map fun i => .unfilled (junk.slot t.arrays i)

/-- A sender that is neither a server nor a router is a client. -/
def addClient (t : Topo) (nodeIp : List UInt8) : Option Topo :=
  if (existInList t.heap nodeIp t.servers.header).isNone ∧ nodeIp.head? ≠ some 114 then do
    let (t, clients, _) ← addNodeByIpWithNum junk t nodeIp t.clients
    return { t with clients := clients }
  else some t

/-- The body of the loop of `parse_LSA_file` for the fields of one line. -/
def updateNode (nodeIp : List UInt8) (seqNum : Int) (neighbors : List UInt8) (t : Topo) : Option Topo := do
  let (t, nodes, now) ← addNodeByIpWithNum junk t nodeIp t.nodes
  let t := { t with nodes := nodes }
  let t ← addClient junk t nodeIp
  if seqNum > (t.heap now).seqNum then
    let neighborNum := countCharNum neighbors 44 + 1
    let t := { t with
      heap := Function.update t.heap now { t.heap now with
        seqNum := seqNum, neighbors := mallocNeighbors junk t neighborNum, neighborNum := neighborNum }
      arrays := t.arrays + 1 }
    neighborLoop junk now neighborNum 0 (strtok neighbors) t
  else return t

/-- The text of a `%s` conversion and what follows it. -/
def scanString (s : List UInt8) : List UInt8 × List UInt8 :=
  let s := s.dropWhile isspace
  (s.takeWhile (!isspace ·), s.dropWhile (!isspace ·))

/-- A `%d` conversion: no result where the number does not fit an `int`, `some none` where
there is no number. -/
def scanInt (s : List UInt8) : Option (Option (Int × List UInt8)) :=
  let s := s.dropWhile isspace
  let negative := s.head? = some 45
  let s := if negative ∨ s.head? = some 43 then s.tail else s
  let digits := s.takeWhile isdigit
  if digits = [] then some none
  else
    let value : Int := if negative then -digitsVal digits else digitsVal digits
    if value < -2 ^ 31 ∨ 2 ^ 31 ≤ value then none
    else some (some (value, s.dropWhile isdigit))

/-- `sscanf(line, "%s %d %s", …)`: the three fields, or `some none` for fewer conversions. -/
def sscanfLine (line : List UInt8) : Option (Option (List UInt8 × Int × List UInt8)) := do
  let (nodeIp, s) := scanString (cstr line)
  if nodeIp = [] then return none
  if maxIpLen ≤ nodeIp.length then none
  match ← scanInt s with
  | none => return none
  | some (seqNum, s) =>
    let (neighbors, _) := scanString s
    if neighbors = [] then return none
    if maxLineLen ≤ neighbors.length then none
    return some (nodeIp, seqNum, neighbors)

/-- The strings successive calls of `fgets(line, MAX_LINE_LEN, f)` read from a file, after the
bytes `cur` of the current one. -/
def fgetsLines (cur : List UInt8) : List UInt8 → List (List UInt8)
  | [] => if cur = [] then [] else [cur]
  | b :: bs =>
    if b = 10 ∨ cur.length + 2 = maxLineLen then (cur ++ [b]) :: fgetsLines [] bs
    else fgetsLines (cur ++ [b]) bs

def parseLsaLines : List (List UInt8) → Topo → Option (Int × Topo)
  | [], t => some (0, t)
  | line :: lines, t => do
    match ← sscanfLine line with
    | none => return (-1, t)
    | some (nodeIp, seqNum, neighbors) =>
      let t ← updateNode junk nodeIp seqNum neighbors t
      parseLsaLines lines t

/-- The returned value and the lists; a file that cannot be opened is `none`. -/
def parseLsaFile (file : Option (List UInt8)) (t : Topo) : Option (Int × Topo) :=
  match file with
  | none => some (-1, t)
  | some text => parseLsaLines junk (fgetsLines [] text) t

/-- The line and its terminator are read into `node_ip`, whose last character is dropped. -/
def parseServerLines : List (List UInt8) → Topo → Option Topo
  | [], t => some t
  | line :: lines, t => do
    if maxIpLen ≤ line.length then none
    if cstr line = [] then none
    let nodeIp := (cstr line).dropLast
    let (t, nodes, _) ← addNodeByIpWithNum junk t nodeIp t.nodes
    let t := { t with nodes := nodes }
    let (t, servers, _) ← addNodeByIpWithNum junk t nodeIp t.servers
    parseServerLines lines { t with servers := servers }

def parseServerFile (file : Option (List UInt8)) (t : Topo) : Option (Int × Topo) :=
  match file with
  | none => some (-1, t)
  | some text => do
    let t ← parseServerLines junk (fgetsLines [] text) t
    return (0, { t with servers := { t.servers with header := t.servers.header.reverse } })

end VideoCDN.Nameserver
