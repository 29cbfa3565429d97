import VideoCDN.Nameserver.LsaFits
import VideoCDN.Nameserver.NeighborTokens
import VideoCDN.Nameserver.Tables

/-!
# Reads of the neighbors

The places of `parse_LSA_file` and `build_routing_table` where the `neighbor_num` of a node or a slot of its array is
read; `parse_server_file` reads neither. `add_node_by_ip_with_num` leaves `neighbor_num` as `malloc` returns it, and
the array of a sender is searched before it is filled, so that the first read is already wrong.
-/

namespace VideoCDN.Nameserver

open CString LinkState

/-! ## The reads -/

/-- An access to the neighbors of a node; a read of its `neighbor_num` comes with the value and the number of slots
that are allocated, a read of a slot outside its array is `none`. -/
inductive NeighborAccess
  | writeNum (p : Nat)
  | readNum (p : Nat) (num : Int) (slots : Nat)
  | readSlot (slot : Option Slot)
  deriving DecidableEq, Repr

/-- `neighbor_num` was written before and is the number of slots, and a slot is filled. -/
def NeighborAccess.Ok (before : List NeighborAccess) : NeighborAccess → Prop
  | .writeNum _ => True
  | .readNum p num slots => .writeNum p ∈ before ∧ num = slots
  | .readSlot slot => ∃ q, slot = some (.filled q)

/-- All accesses of a run are as they should be. -/
def AllOk (log : List NeighborAccess) : Prop :=
  ∀ before a after, log = before ++ a :: after → a.Ok before

def numAccess (t : Topo) (p : Nat) : NeighborAccess := .readNum p (t.heap p).neighborNum (t.heap p).neighbors.length

/-- The first loop of `add_reverse_neighbor`, from slot `i` on. -/
def compareAccesses (t : Topo) (n neighbor : Nat) : Nat → Nat → List NeighborAccess
  | 0, _ => [numAccess t n]
  | rounds + 1, i => numAccess t n :: .readSlot (t.heap n).neighbors[i]? ::
    match (t.heap n).neighbors[i]? with
    | none => []
    | some slot => if slot.value = some neighbor then [] else compareAccesses t n neighbor rounds (i + 1)

/-- The new array, in `t'`, is allocated, filled with the slots of the old one, and extended. -/
def copyAccesses (t t' : Topo) (n : Nat) : List NeighborAccess :=
  [numAccess t n, .writeNum n, numAccess t' n] ++
    (((t.heap n).neighbors.take (t.heap n).neighborNum.toNat).flatMap fun slot =>
      [numAccess t' n, .readSlot (some slot)]) ++
    [numAccess t' n, numAccess t' n]

def addReverseNeighborAccesses (t : Topo) (n neighbor : Nat) : List NeighborAccess :=
  compareAccesses t n neighbor (t.heap n).neighborNum.toNat 0 ++
    match addReverseNeighbor t n neighbor with
    | none => []
    | some t' =>
      if ((t.heap n).neighbors.take (t.heap n).neighborNum.toNat).any fun slot => slot.value = some neighbor then []
      else copyAccesses t t' n

section Parse

variable (junk : Junk)

def neighborRoundAccesses (now : Nat) (neighbor : List UInt8) (t : Topo) : List NeighborAccess :=
  match neighborNode junk t neighbor with
  | none => []
  | some (t, thisNeighbor) => addReverseNeighborAccesses t thisNeighbor now

def neighborLoopAccesses (now : Nat) : Nat → Nat → List (List UInt8) → Topo → List NeighborAccess
  | 0, _, _, _ => []
  | _ + 1, _, [], _ => []
  | rounds + 1, i, neighbor :: tokens, t => neighborRoundAccesses junk now neighbor t ++
    match neighborRound junk now i neighbor t with
    | none => []
    | some t => neighborLoopAccesses now rounds (i + 1) tokens t

/-- The array of the sender is allocated and its number written, and then the loop runs. -/
def updateNodeAccesses (nodeIp : List UInt8) (seqNum : Int) (neighbors : List UInt8) (t : Topo) : List NeighborAccess :=
  match allocated junk nodeIp seqNum neighbors t with
  | none => []
  | some (t, now) =>
    .writeNum now :: neighborLoopAccesses junk now (countCharNum neighbors 44 + 1) 0 (strtok neighbors) t

def parseLsaAccesses (lines : List (List UInt8)) (t : Topo) : List NeighborAccess :=
  (visits junk lines t).flatMap fun v => updateNodeAccesses junk v.2.1 v.2.2.1 v.2.2.2 v.1

end Parse

/-- The slot of a neighbor is read once more for its address, or to push it and for its address. -/
def scanAccesses (n : Nat) : Nat → Topo → SearchQueue → List NeighborAccess
  | 0, _, _ => []
  | i + 1, t, q => .readSlot (t.heap n).neighbors[i]? ::
    match neighborAt t n i with
    | none => []
    | some p =>
      if (t.heap p).visited then scanAccesses n i t q
      else .readSlot (t.heap n).neighbors[i]? :: .readSlot (t.heap n).neighbors[i]? ::
        if isServer t p then []
        else match q.push p with
          | none => []
          | some q => scanAccesses n i (visit t p) q

def searchAccesses : Nat → Topo → SearchQueue → List NeighborAccess
  | 0, _, _ => []
  | fuel + 1, t, q =>
    if isEmpty q.mem 0 1 then []
    else match popFront q.mem 0 with
      | none => []
      | some (mem, now) =>
        let n := (mem now).n
        numAccess t n :: scanAccesses n (t.heap n).neighborNum.toNat t ⟨mem, q.next⟩ ++
          match scanNeighbors n (t.heap n).neighborNum.toNat t ⟨mem, q.next⟩ with
          | some (t, q, none) => searchAccesses fuel t q
          | _ => []

def bfsAccesses (t : Topo) (now : Nat) : List NeighborAccess :=
  match initQueue.push now with
  | none => []
  | some q => searchAccesses (t.nodes.header.length + 1) (visit (clearVisited t) now) q

/-- The number of a client is read after its address was compared with the servers and with `r`. -/
def routeAccesses : List Nat → Nat → Topo → List RoutingTableEntry → List NeighborAccess
  | [], _, _, _ => []
  | client :: rest, cnt, t, table =>
    match setClientIp table cnt (t.heap client).ip with
    | none => []
    | some table =>
      if isServer t client || (t.heap client).ip.head? = some 114 then routeAccesses rest cnt t table
      else numAccess t client ::
        if (t.heap client).neighborNum = 0 then routeAccesses rest cnt t table
        else bfsAccesses t client ++
          ((do
            let (t, serverIp) ← bfs t client
            let first ← t.servers.header.head?
            let table ← setServerIp table cnt (serverIp.getD (t.heap first).ip)
            let _client ← rest.head?
            return routeAccesses rest (cnt + 1) t table : Option (List NeighborAccess)).getD [])

def buildAccesses (t : Topo) : List NeighborAccess :=
  if t.clients.num ≤ 0 ∨ t.servers.num ≤ 0 ∨ t.nodes.num ≤ 0 ∨ t.nodes.header = [] ∨
      t.servers.header = [] ∨ t.clients.header = [] then []
  else routeAccesses t.nodes.header 0 t (List.replicate t.nodes.num ⟨none, none⟩)

/-- What `fgets` reads from a file, if it can be opened. -/
def filePieces : Option (List UInt8) → List (List UInt8)
  | none => []
  | some text => fgetsLines [] text

/-- The accesses of a run of `parse_server_file`, `parse_LSA_file` and `build_routing_table`. -/
def runAccesses (junk : Junk) (serverFile lsaFile : Option (List UInt8)) : List NeighborAccess :=
  match parseServerFile junk serverFile init with
  | none => []
  | some (_, t) => parseLsaAccesses junk (filePieces lsaFile) t ++
    match parseLsaFile junk lsaFile t with
    | none => []
    | some (_, t) => buildAccesses t

/-- The three functions one after the other, where all their steps are defined. -/
def runTables (junk : Junk) (serverFile lsaFile : Option (List UInt8)) :
    Option (Int × Topo × Option (List RoutingTableEntry)) := do
  let (_, t) ← parseServerFile junk serverFile init
  let (_, t) ← parseLsaFile junk lsaFile t
  buildRoutingTable t

/-- The run gets to its end, and all its accesses are as they should be. -/
def NeighborsRight (junk : Junk) (serverFile lsaFile : Option (List UInt8)) : Prop :=
  (runTables junk serverFile lsaFile).isSome ∧ AllOk (runAccesses junk serverFile lsaFile)

/-! ## When nothing is read -/

/-- A line of a servers file that can be read: it fits its buffer and has a last character to drop. -/
def Readable (line : List UInt8) : Prop := line.length < maxIpLen ∧ cstr line ≠ []

/-- The servers of a file of readable lines. -/
def serverNames (file : Option (List UInt8)) : List (List UInt8) :=
  (filePieces file).map fun line => (cstr line).dropLast

/-- No table is built: there is no server, or every sender is a server or a router. -/
def NoTable (names senders : List (List UInt8)) : Prop :=
  names = [] ∨ ∀ s ∈ senders, s ∈ names ∨ s.head? = some 114

/-- No line is installed before the first one without three fields, and no table is built. -/
def ReadsNothing (names : List (List UInt8)) : List (List UInt8) → List (List UInt8) → Prop
  | senders, [] => NoTable names senders
  | senders, line :: lines =>
    match sscanfLine line with
    | none => False
    | some none => NoTable names senders
    | some (some (nodeIp, seqNum, _)) => seqNum < 0 ∧ ReadsNothing names (senders ++ [nodeIp]) lines

/-! ## The first read -/

lemma not_allOk (before : List NeighborAccess) {after : List NeighborAccess} {a : NeighborAccess} (h : ¬a.Ok before) :
    ¬AllOk (before ++ a :: after) := fun hall => h (hall before a after rfl)

lemma allOk_nil : AllOk [] := by
  intro before a after h
  cases before <;> cases h

lemma compareAccesses_first (t : Topo) (n neighbor rounds i : Nat) :
    ∃ rest, compareAccesses t n neighbor rounds i = numAccess t n :: rest := by
  cases rounds with
  | zero => exact ⟨[], rfl⟩
  | succ rounds => exact ⟨_, rfl⟩

variable (junk : Junk) {t t' : Topo} {names senders : List (List UInt8)} {ip : List UInt8} {seq : Int}

/-- No line was installed: nothing is known of the nodes but their addresses, and the clients are the senders that are
neither servers nor routers. -/
structure Quiet (t : Topo) (names senders : List (List UInt8)) : Prop where
  knows : Knows t fun _ => none
  servers : ∀ s, s ∈ ips t t.servers.header ↔ s ∈ names
  servers_lt : ∀ p ∈ t.servers.header, p < t.next
  totalNum : t.nodes.num = t.nodes.header.length
  serverNum : t.servers.num = t.servers.header.length
  clientNum : t.clients.num = t.clients.header.length
  heard : ∀ s ∈ senders, IsName t s
  noClient : t.clients.header = [] ↔ ∀ s ∈ senders, s ∈ names ∨ s.head? = some 114
  short : ShortNames t

/-- A new node changes nothing else. -/
lemma Quiet.node (Q : Quiet t names senders) {now : Nat} (hnode : neighborNode junk t ip = some (t', now)) :
    Quiet t' names senders := by
  obtain ⟨hn, hgrown, -, -⟩ := neighborNode_grown junk Q.knows.named hnode
  obtain ⟨new, hnodes, -⟩ := hgrown.nodes
  constructor
  · exact Q.knows.grown hgrown hn
  · rw [hgrown.servers, hgrown.extends.ips_eq Q.servers_lt]
    exact Q.servers
  · rw [hgrown.servers]
    exact fun p hp => (Q.servers_lt p hp).trans_le hgrown.next
  · rw [hnodes, List.length_append, Q.totalNum]
  · rw [hgrown.servers]
    exact Q.serverNum
  · rw [hgrown.clients]
    exact Q.clientNum
  · intro s hs
    obtain ⟨p, hp, rfl⟩ := Q.heard s hs
    refine ⟨p, ?_, hgrown.ip p (Q.knows.named.lt p hp)⟩
    rw [hnodes]
    exact List.mem_append_right _ hp
  · rw [hgrown.clients]
    exact Q.noClient
  · exact (Q.short.node junk Q.knows.named hnode).2

lemma addClient_of_listed (h : ip ∈ ips t t.servers.header ∨ ip.head? = some 114) :
    addClient junk t ip = some t := by
  unfold addClient
  rw [if_neg]
  rintro ⟨hserver, hrouter⟩
  rcases h with h | h
  · obtain ⟨p, hp, hip⟩ := List.mem_map.mp h
    exact (existInList_eq_none_iff _ _ _).mp (Option.isNone_iff_eq_none.mp hserver) p hp hip
  · exact hrouter h

/-- A node becomes a sender, and a client if it is neither a server nor a router. -/
lemma Quiet.client (Q : Quiet t names senders) (hip : ip.length < maxIpLen) (hname : IsName t ip)
    (hclient : addClient junk t ip = some t') : Quiet t' names (senders ++ [ip]) := by
  have hsame := addClient_sameGraph junk hclient
  have hext := addClient_extends junk hclient
  obtain ⟨newClients, hnewClients⟩ := hext.clients
  constructor
  · exact hsame.knows Q.knows
  · rw [hext.servers, hext.ips_eq Q.servers_lt]
    exact Q.servers
  · rw [hext.servers]
    exact fun p hp => (Q.servers_lt p hp).trans_le hext.next
  · rw [hsame.nodes]
    exact Q.totalNum
  · rw [hext.servers]
    exact Q.serverNum
  · rw [hnewClients, List.length_append, Q.clientNum]
  · intro s hs
    apply (hsame.isName Q.knows.named s).mpr
    rcases List.mem_append.mp hs with hs | hs
    · exact Q.heard s hs
    · rwa [List.mem_singleton.mp hs]
  · constructor
    · intro hnone s hs
      rw [hnewClients] at hnone
      rcases List.mem_append.mp hs with hs | hs
      · exact Q.noClient.mp (List.append_eq_nil_iff.mp hnone).2 s hs
      · rw [List.mem_singleton.mp hs]
        by_contra hclientIp
        obtain ⟨hserver, hrouter⟩ := not_or.mp hclientIp
        obtain ⟨t₁, hclient₁, hclients⟩ := addClient_spec junk hip t
        obtain rfl := Option.some.inj (hclient.symm.trans hclient₁)
        rw [← Q.servers] at hserver
        apply hclients hserver hrouter
        rw [hnewClients]
        exact hnone
    · intro hall
      have hlisted : ip ∈ ips t t.servers.header ∨ ip.head? = some 114 := by
        rw [Q.servers]
        exact hall ip (by simp)
      rw [addClient_of_listed junk hlisted] at hclient
      obtain rfl := Option.some.inj hclient
      exact Q.noClient.mpr fun s hs => hall s (List.mem_append_left _ hs)
  · exact Q.short.sameGraph Q.knows.named hsame

/-- The state in which a line is compared with its sender. -/
lemma Quiet.sender (Q : Quiet t names senders) (hip : ip.length < maxIpLen) :
    ∃ t₁ t₂ now, neighborNode junk t ip = some (t₁, now) ∧ addClient junk t₁ ip = some t₂ ∧
      Quiet t₂ names (senders ++ [ip]) ∧ now < t₂.next ∧ (t₂.heap now).seqNum = -1 := by
  obtain ⟨t₁, now, hnode⟩ := neighborNode_isSome junk hip t
  obtain ⟨t₂, hclient, -⟩ := addClient_spec junk hip t₁
  obtain ⟨hknows, hnow, -, hnum⟩ := Q.knows.sender junk hnode hclient
  obtain ⟨-, -, hnow₁, hnowIp⟩ := neighborNode_grown junk Q.knows.named hnode
  have Q₂ := (Q.node junk hnode).client junk hip ⟨now, hnow₁, hnowIp⟩ hclient
  exact ⟨t₁, t₂, now, hnode, hclient, Q₂, hknows.named.lt now hnow, hnum⟩

/-- The first round looks for the sender among the neighbors of a node whose number was never written, or in its own
array, of which no slot is filled. -/
lemma neighborRoundAccesses_bad {t : Topo} {now n : Nat} {seq : Int} (hnow : now < t.next) {neighbor : List UInt8}
    (hfit : neighbor.length < maxIpLen) (rest : List NeighborAccess) :
    ¬AllOk (.writeNum now ::
      (neighborRoundAccesses junk now neighbor (startUpdate junk t now seq (n + 1)) ++ rest)) := by
  obtain ⟨start, hstart⟩ : ∃ start, startUpdate junk t now seq (n + 1) = start := ⟨_, rfl⟩
  rw [hstart]
  obtain ⟨t', p, hnode⟩ := neighborNode_isSome junk hfit start
  unfold neighborRoundAccesses addReverseNeighborAccesses
  rw [hnode]
  dsimp only
  by_cases hp : p = now
  · subst hp
    obtain rfl : t' = start := by
      rcases neighborNode_cases junk hnode with ⟨rfl, -, -⟩ | ⟨-, -, rfl⟩
      · rfl
      · rw [← hstart] at hnow
        exact absurd hnow (Nat.lt_irrefl _)
    have hnum : (t'.heap p).neighborNum.toNat = n + 1 := by
      rw [← hstart, startUpdate_self]
      rfl
    have hslot : (t'.heap p).neighbors[0]? = some (.unfilled (junk.slot t.arrays 0)) := by
      rw [← hstart, startUpdate_self]
      simp [mallocNeighbors]
    rw [hnum, compareAccesses, hslot]
    apply not_allOk [.writeNum p, numAccess t' p]
    rintro ⟨q, hq⟩
    cases hq
  · obtain ⟨more, hmore⟩ := compareAccesses_first t' p now (t'.heap p).neighborNum.toNat 0
    rw [hmore]
    apply not_allOk [.writeNum now]
    rintro ⟨hwritten, -⟩
    obtain ⟨⟩ : NeighborAccess.writeNum p = .writeNum now := List.mem_singleton.mp hwritten
    exact hp rfl

/-- The line that is installed first breaks off, or its first read is not as it should be. -/
lemma updateNodeAccesses_first (neighbors : List UInt8) (Q : Quiet t names senders) (hip : ip.length < maxIpLen)
    (hseq : 0 ≤ seq) :
    updateNode junk ip seq neighbors t = none ∨
      ∀ rest, ¬AllOk (updateNodeAccesses junk ip seq neighbors t ++ rest) := by
  obtain ⟨t₁, t₂, now, hnode, hclient, Q₂, hnow, hnum⟩ := Q.sender junk hip
  have hnew : seq > (t₂.heap now).seqNum := by
    rw [hnum]
    omega
  have hallocated : allocated junk ip seq neighbors t =
      some (startUpdate junk t₂ now seq (countCharNum neighbors 44 + 1), now) := allocated_eq junk hnode hclient hnew
  have hupdate : updateNode junk ip seq neighbors t = neighborLoop junk now (countCharNum neighbors 44 + 1) 0
      (strtok neighbors) (startUpdate junk t₂ now seq (countCharNum neighbors 44 + 1)) := by
    rw [updateNode_eq, hnode, Option.bind_some, hclient, Option.bind_some, if_pos hnew]
  have hlog : updateNodeAccesses junk ip seq neighbors t = .writeNum now :: neighborLoopAccesses junk now
      (countCharNum neighbors 44 + 1) 0 (strtok neighbors)
      (startUpdate junk t₂ now seq (countCharNum neighbors 44 + 1)) := by
    rw [updateNodeAccesses, hallocated]
  rw [hlog, hupdate]
  cases strtok neighbors with
  | nil =>
    -- there is a round without a token
    exact Or.inl rfl
  | cons neighbor tokens =>
    by_cases hlong : maxIpLen ≤ neighbor.length
    · have hnone :
          neighborNode junk (startUpdate junk t₂ now seq (countCharNum neighbors 44 + 1)) neighbor = none := by
        apply neighborNode_long junk _ hlong
        intro p hp
        rw [startUpdate_ip]
        exact Q₂.short p hp
      exact Or.inl (by simp [neighborLoop, neighborRound, hnone])
    · refine Or.inr fun rest => ?_
      rw [neighborLoopAccesses, List.cons_append, List.append_assoc]
      apply neighborRoundAccesses_bad
      · exact hnow
      · exact Nat.not_le.mp hlong

/-! ## Lines that are not installed -/

/-- A line with a negative number adds its sender and nothing else. -/
lemma Quiet.updateNode (Q : Quiet t names senders) (neighbors : List UInt8) (hip : ip.length < maxIpLen)
    (hseq : seq < 0) :
    ∃ t', updateNode junk ip seq neighbors t = some t' ∧ updateNodeAccesses junk ip seq neighbors t = [] ∧
      Quiet t' names (senders ++ [ip]) := by
  obtain ⟨t₁, t₂, now, hnode, hclient, Q₂, -, hnum⟩ := Q.sender junk hip
  have hold : ¬seq > (t₂.heap now).seqNum := by
    rw [hnum]
    omega
  refine ⟨t₂, ?_, ?_, Q₂⟩
  · rw [updateNode_eq, hnode, Option.bind_some, hclient, Option.bind_some, if_neg hold]
  · have hallocated : allocated junk ip seq neighbors t = none := by
      unfold allocated
      simp only [hnode, hclient, Option.bind_eq_bind, Option.bind_some, if_neg hold]
    rw [updateNodeAccesses, hallocated]

/-! ## The table -/

/-- The number of the first node that is neither a server nor a router is read. -/
lemma routeAccesses_first {l : List Nat} (hl : ∃ p ∈ l, ¬(IsListed t p ∨ (t.heap p).ip.head? = some 114))
    {table : List RoutingTableEntry} (htable : 0 < table.length) :
    ∃ p rest, routeAccesses l 0 t table = numAccess t p :: rest := by
  induction l generalizing table with
  | nil =>
    obtain ⟨p, hp, -⟩ := hl
    cases hp
  | cons p l ih =>
    obtain ⟨e, table, rfl⟩ := List.exists_cons_of_length_pos htable
    have hset : setClientIp (e :: table) 0 (t.heap p).ip =
        some ({ e with clientIp := some (t.heap p).ip } :: table) := rfl
    have hiff : (isServer t p || (t.heap p).ip.head? = some 114) = true ↔
        (IsListed t p ∨ (t.heap p).ip.head? = some 114) := by
      rw [Bool.or_eq_true, isServer_iff, decide_eq_true_eq]
    rw [routeAccesses, hset]
    dsimp only
    by_cases hp : IsListed t p ∨ (t.heap p).ip.head? = some 114
    · rw [if_pos (hiff.mpr hp)]
      apply ih
      · obtain ⟨q, hq, hclient⟩ := hl
        rcases List.mem_cons.mp hq with rfl | hq
        · exact absurd hp hclient
        · exact ⟨q, hq, hclient⟩
      · exact Nat.succ_pos _
    · rw [if_neg fun h => hp (hiff.mp h)]
      exact ⟨p, _, rfl⟩

/-- After lines that were not installed, a table is built when there are servers and a client. -/
lemma Quiet.noTable_iff (Q : Quiet t names senders) :
    (t.clients.num ≤ 0 ∨ t.servers.num ≤ 0 ∨ t.nodes.num ≤ 0 ∨ t.nodes.header = [] ∨
      t.servers.header = [] ∨ t.clients.header = []) ↔ NoTable names senders := by
  have hservers : t.servers.header = [] ↔ names = [] := by
    constructor
    · intro hnil
      apply List.eq_nil_iff_forall_not_mem.mpr
      intro name hname
      have hmem := (Q.servers name).mpr hname
      rw [hnil] at hmem
      cases hmem
    · rintro rfl
      apply List.eq_nil_iff_forall_not_mem.mpr
      intro p hp
      have hmem := (Q.servers _).mp (List.mem_map.mpr ⟨p, hp, rfl⟩)
      cases hmem
  have hnodes : t.nodes.header = [] → ∀ s ∈ senders, s ∈ names ∨ s.head? = some 114 := by
    intro hnil s hs
    obtain ⟨p, hp, -⟩ := Q.heard s hs
    rw [hnil] at hp
    cases hp
  have hlength : ∀ l : List Nat, l.length ≤ 0 ↔ l = [] := fun l => by
    rw [Nat.le_zero, List.length_eq_zero_iff]
  rw [Q.clientNum, Q.serverNum, Q.totalNum, hlength, hlength, hlength, hservers, Q.noClient, NoTable]
  tauto

/-- Where a table is built, the number of a client is read that nothing wrote. -/
lemma Quiet.build_iff (Q : Quiet t names senders) :
    (buildRoutingTable t).isSome ∧ AllOk (buildAccesses t) ↔ NoTable names senders := by
  have hlisted : ∀ p, IsListed t p ↔ (t.heap p).ip ∈ names := by
    intro p
    rw [← Q.servers]
    exact List.mem_map.symm
  unfold buildAccesses buildRoutingTable
  constructor
  · rintro ⟨-, hok⟩
    by_contra htable
    have hpre := mt Q.noTable_iff.mp htable
    rw [if_neg hpre] at hok
    obtain ⟨hnames, hsenders⟩ := not_or.mp htable
    push Not at hsenders
    obtain ⟨s, hs, hserver, hrouter⟩ := hsenders
    obtain ⟨p, hp, rfl⟩ := Q.heard s hs
    have hclient : ¬(IsListed t p ∨ (t.heap p).ip.head? = some 114) := by
      rw [hlisted]
      exact not_or.mpr ⟨hserver, hrouter⟩
    have htableLen : 0 < (List.replicate t.nodes.num (⟨none, none⟩ : RoutingTableEntry)).length := by
      rw [List.length_replicate, Q.totalNum]
      exact List.length_pos_of_mem hp
    obtain ⟨q, rest, hfirst⟩ := routeAccesses_first ⟨p, hp, hclient⟩ htableLen
    rw [hfirst] at hok
    refine not_allOk [] ?_ hok
    rintro ⟨hwritten, -⟩
    cases hwritten
  · intro htable
    have hpre := Q.noTable_iff.mpr htable
    rw [if_pos hpre, if_pos hpre]
    exact ⟨rfl, allOk_nil⟩

/-! ## Files -/

/-- The accesses while the lines of an LSA file are read and the table is built. -/
def lsaAccesses (junk : Junk) (lines : List (List UInt8)) (t : Topo) : List NeighborAccess :=
  parseLsaAccesses junk lines t ++ ((parseLsaLines junk lines t).map fun r => buildAccesses r.2).getD []

lemma lsaAccesses_cons {line neighbors : List UInt8} {lines : List (List UInt8)}
    (hscan : sscanfLine line = some (some (ip, seq, neighbors))) :
    lsaAccesses junk (line :: lines) t = updateNodeAccesses junk ip seq neighbors t ++
      ((Nameserver.updateNode junk ip seq neighbors t).map fun t => lsaAccesses junk lines t).getD [] := by
  unfold lsaAccesses parseLsaAccesses
  rw [visits, parseLsaLines_fields junk hscan, hscan]
  simp only [List.flatMap_cons]
  cases Nameserver.updateNode junk ip seq neighbors t with
  | none => simp
  | some t₁ => simp

/-- Reading the lines and building the table. -/
def lsaTables (junk : Junk) (lines : List (List UInt8)) (t : Topo) :
    Option (Int × Topo × Option (List RoutingTableEntry)) :=
  (parseLsaLines junk lines t).bind fun r => buildRoutingTable r.2

/-- From a state without installed lines, the run is as it should be exactly when nothing is read. -/
lemma Quiet.lsaAccesses_iff (Q : Quiet t names senders) (lines : List (List UInt8)) :
    (lsaTables junk lines t).isSome ∧ AllOk (lsaAccesses junk lines t) ↔ ReadsNothing names senders lines := by
  induction lines generalizing t senders with
  | nil => exact Q.build_iff
  | cons line lines ih =>
    rw [ReadsNothing]
    cases hscan : sscanfLine line with
    | none =>
      have hnone : lsaTables junk (line :: lines) t = none := by
        rw [lsaTables, parseLsaLines, hscan]
        rfl
      rw [hnone]
      exact iff_of_false (fun h => Bool.false_ne_true h.1) id
    | some fields =>
      cases fields with
      | none =>
        have hlog : lsaAccesses junk (line :: lines) t = buildAccesses t := by
          unfold lsaAccesses parseLsaAccesses
          rw [visits, parseLsaLines, hscan]
          rfl
        have htables : lsaTables junk (line :: lines) t = buildRoutingTable t := by
          rw [lsaTables, parseLsaLines, hscan]
          rfl
        rw [hlog, htables]
        exact Q.build_iff
      | some fields =>
        obtain ⟨ip, seq, neighbors⟩ := fields
        have hip := sender_length hscan
        have htables : lsaTables junk (line :: lines) t =
            (Nameserver.updateNode junk ip seq neighbors t).bind fun t => lsaTables junk lines t := by
          rw [lsaTables, parseLsaLines_fields junk hscan, Option.bind_assoc]
          rfl
        rw [lsaAccesses_cons junk hscan, htables]
        dsimp only
        by_cases hseq : seq < 0
        · obtain ⟨t₁, hupdate, hlog, Q₁⟩ := Q.updateNode junk neighbors hip hseq
          rw [hlog, hupdate, and_iff_right hseq]
          exact ih Q₁
        · refine iff_of_false ?_ fun h => hseq h.1
          rintro ⟨hdefined, hok⟩
          rcases updateNodeAccesses_first junk neighbors Q hip (not_lt.mp hseq) with hnone | hbad
          · rw [hnone] at hdefined
            exact Bool.false_ne_true hdefined
          · exact hbad _ hok

lemma runTables_eq (junk : Junk) (serverFile lsaFile : Option (List UInt8)) : runTables junk serverFile lsaFile =
    (parseServerFile junk serverFile init).bind fun r => lsaTables junk (filePieces lsaFile) r.2 := by
  unfold runTables
  cases parseServerFile junk serverFile init with
  | none => rfl
  | some r => cases lsaFile <;> rfl

lemma runAccesses_eq (junk : Junk) (serverFile lsaFile : Option (List UInt8)) : runAccesses junk serverFile lsaFile =
    ((parseServerFile junk serverFile init).map fun r => lsaAccesses junk (filePieces lsaFile) r.2).getD [] := by
  unfold runAccesses
  cases parseServerFile junk serverFile init with
  | none => rfl
  | some r =>
    cases lsaFile with
    | none => rfl
    | some text =>
      simp only [Option.map_some, Option.getD_some, lsaAccesses, filePieces, parseLsaFile]
      cases parseLsaLines junk (fgetsLines [] text) r.2 <;> rfl

/-! ## The servers file -/

lemma quiet_init : Quiet init [] [] := by
  refine ⟨knows_init, ?_, ?_, rfl, rfl, rfl, ?_, ?_, shortNames_init⟩ <;> simp [init, ips]

/-- A name is put in front of the servers, unless it is there. -/
lemma Quiet.server (Q : Quiet t names []) {servers : NodeList} {p : Nat}
    (hadd : addNodeByIpWithNum junk t ip t.servers = some (t', servers, p)) :
    Quiet { t' with servers := servers } (names ++ [ip]) [] := by
  have hgraph := addNodeByIpWithNum_sameGraph junk hadd
  have hsame : SameGraph t { t' with servers := servers } := ⟨hgraph.next, hgraph.heap, hgraph.nodes⟩
  have hknows := hsame.knows Q.knows
  have hshort : ∀ q ∈ t'.nodes.header, (t'.heap q).ip.length < maxIpLen := by
    intro q hq
    rw [hsame.nodes] at hq
    rw [hsame.heap q (Q.knows.named.lt q hq)]
    exact Q.short q hq
  rcases addNodeByIpWithNum_cases junk hadd with ⟨hp, hip, rfl, rfl⟩ | ⟨-, rfl, rfl, -⟩
  · refine ⟨hknows, fun s => ?_, Q.servers_lt, Q.totalNum, Q.serverNum, Q.clientNum, by simp, ?_, hshort⟩
    · have hmem : ip ∈ names := (Q.servers ip).mp (List.mem_map.mpr ⟨p, hp, hip⟩)
      rw [List.mem_append, List.mem_singleton]
      constructor
      · exact fun hs => Or.inl ((Q.servers s).mp hs)
      · rintro (hs | rfl)
        · exact (Q.servers s).mpr hs
        · exact (Q.servers s).mpr hmem
    · exact iff_of_true (Q.noClient.mpr (by simp)) (by simp)
  · refine ⟨hknows, fun s => ?_, fun q hq => ?_, Q.totalNum, ?_, Q.clientNum, by simp, ?_, hshort⟩
    · have hips : ips (alloc junk t ip) (t.next :: t.servers.header) = ip :: ips t t.servers.header := by
        change ips (alloc junk t ip) [t.next] ++ ips (alloc junk t ip) t.servers.header = _
        rw [ips_alloc, (extends_alloc junk t ip).ips_eq Q.servers_lt]
        rfl
      change s ∈ ips (alloc junk t ip) (t.next :: t.servers.header) ↔ _
      rw [hips, List.mem_cons, List.mem_append, List.mem_singleton, Q.servers]
      exact or_comm
    · change q < t.next + 1
      rcases List.mem_cons.mp hq with rfl | hq
      · exact Nat.lt_succ_self _
      · exact (Q.servers_lt q hq).trans (Nat.lt_succ_self _)
    · change t.servers.num + 1 = t.servers.header.length + 1
      rw [Q.serverNum]
    · exact iff_of_true (Q.noClient.mpr (by simp)) (by simp)

lemma parseServerLines_quiet {lines : List (List UInt8)} (Q : Quiet t names [])
    (hlines : ∀ line ∈ lines, Readable line) :
    ∃ t', parseServerLines junk lines t = some t' ∧
      Quiet t' (names ++ lines.map fun line => (cstr line).dropLast) [] := by
  induction lines generalizing t names with
  | nil => exact ⟨t, rfl, by simpa using Q⟩
  | cons line lines ih =>
    obtain ⟨hfits, hne⟩ := hlines line List.mem_cons_self
    have hlen : (cstr line).dropLast.length < maxIpLen := by
      have hle := (cstr_prefix_self line).length_le
      rw [List.length_dropLast]
      omega
    obtain ⟨t₁, nodes, p, hnodes⟩ := addNodeByIpWithNum_isSome junk hlen t t.nodes
    have hnode : neighborNode junk t (cstr line).dropLast = some ({ t₁ with nodes := nodes }, p) := by
      rw [neighborNode_eq, hnodes]
      rfl
    have Q₁ := Q.node junk hnode
    obtain ⟨t₂, servers, q, hservers⟩ :=
      addNodeByIpWithNum_isSome junk hlen { t₁ with nodes := nodes } t₁.servers
    obtain ⟨t', hparse, Q'⟩ := ih (Q₁.server junk hservers) fun l hl => hlines l (List.mem_cons_of_mem line hl)
    refine ⟨t', ?_, ?_⟩
    · rw [parseServerLines, if_neg (Nat.not_le.mpr hfits), if_neg hne]
      dsimp only [Option.bind_eq_bind]
      rw [hnodes, Option.bind_some]
      dsimp only
      rw [hservers]
      exact hparse
    · rwa [List.map_cons, ← List.singleton_append, ← List.append_assoc]

/-- A file of readable lines is read, and no line of an LSA file was. -/
lemma parseServerFile_quiet {file : Option (List UInt8)} (hlines : ∀ line ∈ filePieces file, Readable line) :
    ∃ ret t, parseServerFile junk file init = some (ret, t) ∧ Quiet t (serverNames file) [] := by
  cases file with
  | none => exact ⟨-1, init, rfl, quiet_init⟩
  | some text =>
    obtain ⟨t, hparse, Q⟩ := parseServerLines_quiet junk quiet_init hlines
    have hreverse : ∀ s, s ∈ ips t t.servers.header.reverse ↔ s ∈ ips t t.servers.header := by
      intro s
      simp [ips]
    refine ⟨0, { t with servers := { t.servers with header := t.servers.header.reverse } }, ?_, ?_⟩
    · change (parseServerLines junk (filePieces (some text)) init).bind _ = _
      rw [hparse]
      rfl
    · have hsame : SameGraph t { t with servers := { t.servers with header := t.servers.header.reverse } } :=
        ⟨le_rfl, fun _ _ => rfl, rfl⟩
      refine ⟨hsame.knows Q.knows, fun s => (hreverse s).trans (Q.servers s),
        fun p hp => Q.servers_lt p (List.mem_reverse.mp hp), Q.totalNum, ?_, Q.clientNum, Q.heard, Q.noClient,
        Q.short⟩
      change t.servers.num = t.servers.header.reverse.length
      rw [List.length_reverse, Q.serverNum]

/-! ## The law -/

/-- For all files, and whatever `malloc` leaves in memory, the run gets to its end, every `neighbor_num` that is read
was written and is the number of slots, and every slot that is read was filled, exactly when the servers file can be
read and no neighbor is looked at. -/
theorem runAccesses_ok_iff (junk : Junk) (serverFile lsaFile : Option (List UInt8)) :
    NeighborsRight junk serverFile lsaFile ↔
      (∀ line ∈ filePieces serverFile, Readable line) ∧
        ReadsNothing (serverNames serverFile) [] (filePieces lsaFile) := by
  rw [NeighborsRight, runAccesses_eq, runTables_eq]
  by_cases hlines : ∀ line ∈ filePieces serverFile, Readable line
  · obtain ⟨ret, t, hparse, Q⟩ := parseServerFile_quiet junk hlines
    rw [hparse, Option.bind_some, Option.map_some, Option.getD_some, Q.lsaAccesses_iff junk, and_iff_right hlines]
  · have hnone : parseServerFile junk serverFile init = none := by
      push Not at hlines
      obtain ⟨line, hline, hbad⟩ := hlines
      cases serverFile with
      | none => cases hline
      | some text =>
        have hunreadable : maxIpLen ≤ line.length ∨ cstr line = [] := by
          by_contra h
          obtain ⟨hlen, hne⟩ := not_or.mp h
          exact hbad ⟨Nat.not_le.mp hlen, hne⟩
        have hparse := parseServerLines_unreadable junk hline hunreadable init
        change (parseServerLines junk (filePieces (some text)) init).bind _ = _
        rw [hparse]
        rfl
    rw [hnone]
    exact iff_of_false (fun h => Bool.false_ne_true h.1) fun h => hlines h.1

section Example

/-- A client has the server as its neighbor, whose number was never written. -/
theorem runAccesses_unwritten : ¬∀ (junk : Junk) (serverFile lsaFile : Option (List UInt8)),
    (runTables junk serverFile lsaFile).isSome → NeighborsRight junk serverFile lsaFile := by
  intro h
  obtain ⟨log, hlog⟩ : ∃ log,
      runAccesses zeroJunk (some (bytes "2.0.0.1\n")) (some (bytes "1.0.0.1 0 2.0.0.1\n")) = log := ⟨_, rfl⟩
  have hfirst : (runAccesses zeroJunk (some (bytes "2.0.0.1\n")) (some (bytes "1.0.0.1 0 2.0.0.1\n"))).take 2 =
      [.writeNum 2, .readNum 0 0 0] := by
    decide
  have hdefined : (runTables zeroJunk (some (bytes "2.0.0.1\n")) (some (bytes "1.0.0.1 0 2.0.0.1\n"))).isSome := by
    decide
  obtain ⟨-, hok⟩ := h zeroJunk (some (bytes "2.0.0.1\n")) (some (bytes "1.0.0.1 0 2.0.0.1\n")) hdefined
  rw [hlog] at hfirst hok
  rw [← List.take_append_drop 2 log, hfirst] at hok
  refine not_allOk [.writeNum 2] ?_ hok
  rintro ⟨hwritten, -⟩
  exact absurd hwritten (by decide)

end Example

end VideoCDN.Nameserver
