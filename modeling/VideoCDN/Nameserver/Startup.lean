import VideoCDN.Nameserver.Installed

/-!
# Well-formed files

Files whose tokens fit the buffers are parsed to the end. The lists only grow on the way: the
servers stay in the order of their file, and the first of them stays the last node.
-/

namespace VideoCDN.Nameserver

open CString LinkState

/-- The fields and the text of a line fit the buffers of the parser, and its number an `int`. -/
structure LsaLine.Fits (l : LsaLine) : Prop where
  sender : l.sender.length < maxIpLen
  neighbors : ∀ n ∈ l.neighbors, n.length < maxIpLen
  seq : l.seq < 2 ^ 31
  text : l.text.length + 1 < maxLineLen

/-- A name which a line of the server file can give. -/
def IsServerName (s : List UInt8) : Prop := s ≠ [] ∧ ∀ b ∈ s, b ≠ 0 ∧ b ≠ 10

instance (s : List UInt8) : Decidable (IsServerName s) :=
  have := List.decidableBAll (fun b : UInt8 => b ≠ 0 ∧ b ≠ 10) s
  inferInstanceAs (Decidable (s ≠ [] ∧ ∀ b ∈ s, b ≠ 0 ∧ b ≠ 10))

/-- A file of distinct servers whose names fit their buffer, every line with its newline. -/
structure IsServerFile (servers : List (List UInt8)) (file : List UInt8) : Prop where
  text : file = servers.flatMap fun s => s ++ [10]
  nonempty : servers ≠ []
  distinct : servers.Nodup
  name : ∀ s ∈ servers, IsServerName s
  fits : ∀ s ∈ servers, s.length + 1 < maxIpLen

/-- The addresses of a list of nodes. -/
def ips (t : Topo) (header : List Nat) : List (List UInt8) := header.map fun p => (t.heap p).ip

/-- `t'` has the servers of `t`, and its nodes and clients behind new ones. -/
structure Extends (t t' : Topo) : Prop where
  next : t.next ≤ t'.next
  ip : ∀ p < t.next, (t'.heap p).ip = (t.heap p).ip
  nodes : ∃ new : List Nat, t'.nodes = ⟨new ++ t.nodes.header, new.length + t.nodes.num⟩
  clients : ∃ new : List Nat, t'.clients = ⟨new ++ t.clients.header, new.length + t.clients.num⟩
  servers : t'.servers = t.servers

variable {t t' t'' : Topo}

lemma Extends.refl (t : Topo) : Extends t t :=
  ⟨le_rfl, fun _ _ => rfl, ⟨[], by simp⟩, ⟨[], by simp⟩, rfl⟩

lemma Extends.trans (h : Extends t t') (h' : Extends t' t'') : Extends t t'' := by
  obtain ⟨nodes, hnodes⟩ := h.nodes
  obtain ⟨nodes', hnodes'⟩ := h'.nodes
  obtain ⟨clients, hclients⟩ := h.clients
  obtain ⟨clients', hclients'⟩ := h'.clients
  refine ⟨h.next.trans h'.next, fun p hp => ?_, ⟨nodes' ++ nodes, ?_⟩, ⟨clients' ++ clients, ?_⟩,
    h'.servers.trans h.servers⟩
  · exact (h'.ip p (hp.trans_le h.next)).trans (h.ip p hp)
  · rw [hnodes', hnodes]
    simp [Nat.add_assoc]
  · rw [hclients', hclients]
    simp [Nat.add_assoc]

lemma Grown.extends (h : Grown t t') : Extends t t' := by
  obtain ⟨new, hnew, -⟩ := h.nodes
  exact ⟨h.next, h.ip, ⟨new, hnew⟩, ⟨[], by simp [h.clients]⟩, h.servers⟩

lemma Extends.ips_eq (h : Extends t t') {header : List Nat} (hlt : ∀ p ∈ header, p < t.next) :
    ips t' header = ips t header :=
  List.map_congr_left fun p hp => h.ip p (hlt p hp)

lemma extends_update (t : Topo) (p : Nat) (node : Node) (arrays : Nat) (hip : node.ip = (t.heap p).ip) :
    Extends t { t with heap := Function.update t.heap p node, arrays := arrays } := by
  refine ⟨le_rfl, fun x _ => ?_, ⟨[], by simp⟩, ⟨[], by simp⟩, rfl⟩
  by_cases hx : x = p
  · subst hx
    simpa using hip
  · simp [hx]

variable (junk : Junk)

lemma extends_alloc (t : Topo) (ip : List UInt8) : Extends t (alloc junk t ip) := by
  refine ⟨Nat.le_succ _, fun p hp => ?_, ⟨[], by simp [alloc]⟩, ⟨[], by simp [alloc]⟩, rfl⟩
  exact congrArg Node.ip (Function.update_of_ne hp.ne _ _)

lemma addNodeByIpWithNum_new {ip : List UInt8} (hip : ip.length < maxIpLen) {l : NodeList}
    (hnew : ip ∉ ips t l.header) :
    addNodeByIpWithNum junk t ip l = some (alloc junk t ip, ⟨t.next :: l.header, l.num + 1⟩, t.next) := by
  have hnone : existInList t.heap ip l.header = none :=
    (existInList_eq_none_iff _ _ _).mpr fun p hp heq => hnew (List.mem_map.mpr ⟨p, hp, heq⟩)
  unfold addNodeByIpWithNum
  simp only [hnone]
  rw [if_neg (Nat.not_le.mpr hip)]
  rfl

lemma addClient_extends {ip : List UInt8} (h : addClient junk t ip = some t') : Extends t t' := by
  unfold addClient at h
  split at h
  · obtain ⟨r, hadd, h⟩ := Option.bind_eq_some_iff.mp h
    obtain rfl := Option.some.inj h
    rcases addNodeByIpWithNum_cases junk hadd with ⟨-, -, ht, hl⟩ | ⟨-, ht, hl, -⟩
    · rw [hl, ht]
      exact Extends.refl t
    · have halloc := extends_alloc junk t ip
      rw [hl, ht]
      exact ⟨halloc.next, halloc.ip, halloc.nodes, ⟨[t.next], by simp [Nat.add_comm]⟩, rfl⟩
  · obtain rfl := Option.some.inj h
    exact Extends.refl t

/-- A sender that is neither a server nor a router leaves a client behind. -/
lemma addClient_spec {ip : List UInt8} (hip : ip.length < maxIpLen) (t : Topo) :
    ∃ t', addClient junk t ip = some t' ∧
      (ip ∉ ips t t.servers.header → ip.head? ≠ some 114 → t'.clients.header ≠ []) := by
  unfold addClient
  by_cases hclient : (existInList t.heap ip t.servers.header).isNone ∧ ip.head? ≠ some 114
  · rw [if_pos hclient]
    obtain ⟨t₁, clients, p, hadd⟩ := addNodeByIpWithNum_isSome junk hip t t.clients
    refine ⟨{ t₁ with clients := clients }, by rw [hadd]; rfl, fun _ _ => ?_⟩
    rcases addNodeByIpWithNum_cases junk hadd with ⟨hp, -, rfl, rfl⟩ | ⟨-, rfl, rfl, -⟩
    · exact List.ne_nil_of_mem hp
    · exact List.cons_ne_nil _ _
  · rw [if_neg hclient]
    refine ⟨t, rfl, fun hserver hrouter => absurd ⟨?_, hrouter⟩ hclient⟩
    rw [Option.isNone_iff_eq_none, existInList_eq_none_iff]
    exact fun p hp heq => hserver (List.mem_map.mpr ⟨p, hp, heq⟩)

/-- A line is taken in when its tokens, where they are installed, fit and are as many as the slots. -/
lemma updateNode_defined (hjunk : ∀ a, junk.neighborNum a = 0) {s : LinkState.State (List UInt8)} (R : Refines t s)
    {ip neighbors : List UInt8} {seq : Int} (hip : ip.length < maxIpLen)
    (htokens : ∀ t₁ now t₂, neighborNode junk t ip = some (t₁, now) → addClient junk t₁ ip = some t₂ →
      seq > (t₂.heap now).seqNum → (∀ n ∈ strtok neighbors, n.length < maxIpLen) ∧
        (strtok neighbors).length = countCharNum neighbors 44 + 1) :
    ∃ t' s', updateNode junk ip seq neighbors t = some t' ∧ Refines t' s' := by
  obtain ⟨t₁, now, hnode⟩ := neighborNode_isSome junk hip t
  obtain ⟨R₁, hnow, -⟩ := neighborNode_refines junk hjunk R hnode
  obtain ⟨t₂, hclient, -⟩ := addClient_spec junk hip t₁
  have hsame := addClient_sameGraph junk hclient
  have R₂ := hsame.refines R₁
  have hupdate : updateNode junk ip seq neighbors t = if seq > (t₂.heap now).seqNum then
      neighborLoop junk now (countCharNum neighbors 44 + 1) 0 (strtok neighbors)
        (startUpdate junk t₂ now seq (countCharNum neighbors 44 + 1)) else some t₂ := by
    rw [updateNode_eq, hnode, Option.bind_some, hclient, Option.bind_some]
  by_cases hnew : seq > (t₂.heap now).seqNum
  · obtain ⟨hfit, hcount⟩ := htokens t₁ now t₂ hnode hclient hnew
    have hnow₂ : now ∈ t₂.nodes.header := by rwa [hsame.nodes]
    have F := startUpdate_filling junk R₂ hnow₂ seq (countCharNum neighbors 44 + 1)
    have hlen := mallocNeighbors_length (t := t₂) junk (countCharNum neighbors 44 + 1)
    obtain ⟨t₃, hloop⟩ := neighborLoop_isSome junk hjunk F (hlen.trans hcount.symm).le hfit
    rw [hlen, List.length_nil] at hloop
    rw [if_pos hnew, hloop] at hupdate
    let l : Lsa (List UInt8) := ⟨ip, seq, strtok neighbors⟩
    have hrefines : Refines t₃ (s.install l) := updateNode_refines junk hjunk R rfl hcount.symm hupdate
    exact ⟨t₃, s.install l, hupdate, hrefines⟩
  · rw [if_neg hnew] at hupdate
    exact ⟨t₂, s, hupdate, R₂⟩

/-- A line that fits: the node of its sender, perhaps a client, perhaps its neighbors. -/
lemma updateNode_phases (hjunk : ∀ a, junk.neighborNum a = 0) {s : LinkState.State (List UInt8)} (R : Refines t s)
    {l : LsaLine} (hl : l.Fits) :
    ∃ t₁ t₂ t₃, Grown t t₁ ∧ addClient junk t₁ l.sender = some t₂ ∧ Extends t₂ t₃ ∧ t₃.clients = t₂.clients ∧
      updateNode junk l.sender l.seq l.csv t = some t₃ := by
  have hfit : ∀ n ∈ strtok l.csv, n.length < maxIpLen := by
    rw [l.strtok_csv]
    exact hl.neighbors
  have hcount : (strtok l.csv).length = countCharNum l.csv 44 + 1 := by
    rw [l.strtok_csv, l.count_csv]
  obtain ⟨t₃, -, hupdate, -⟩ : ∃ t' s', updateNode junk l.sender l.seq l.csv t = some t' ∧ Refines t' s' :=
    updateNode_defined junk hjunk R hl.sender fun _ _ _ _ _ _ => ⟨hfit, hcount⟩
  obtain ⟨t₁, now, t₂, hnode, hclient, hcases⟩ := updateNode_cases junk hupdate
  obtain ⟨-, hgrown, -, -⟩ := neighborNode_grown junk R.named hnode
  rcases hcases with ⟨-, hloop⟩ | ⟨-, rfl⟩
  · have R₁ := (neighborNode_refines junk hjunk R hnode).1
    have hn₂ : IsNamed t₂ := ((addClient_sameGraph junk hclient).refines R₁).named
    obtain ⟨-, hgrown₃⟩ := neighborLoop_grown junk (isNamed_startUpdate junk hn₂ now _ _) hloop
    have hstart : Extends t₂ (startUpdate junk t₂ now l.seq (countCharNum l.csv 44 + 1)) := by
      apply extends_update
      rfl
    exact ⟨t₁, t₂, t₃, hgrown, hclient, hstart.trans hgrown₃.extends, hgrown₃.clients, hupdate⟩
  · exact ⟨t₁, t₃, t₃, hgrown, hclient, Extends.refl t₃, rfl, hupdate⟩

lemma updateNode_isSome (hjunk : ∀ a, junk.neighborNum a = 0) {s : LinkState.State (List UInt8)}
    (R : Refines t s) (hlt : ∀ p ∈ t.servers.header, p < t.next) {l : LsaLine} (hl : l.Fits) :
    ∃ t', updateNode junk l.sender l.seq l.csv t = some t' ∧ Extends t t' ∧
      (l.sender ∉ ips t t.servers.header → l.sender.head? ≠ some 114 → t'.clients.header ≠ []) := by
  obtain ⟨t₁, t₂, t₃, hgrown, hclient, hext, hsame, hupdate⟩ := updateNode_phases junk hjunk R hl
  refine ⟨t₃, hupdate, hgrown.extends.trans ((addClient_extends junk hclient).trans hext), fun hserver hrouter => ?_⟩
  obtain ⟨t₂', hclient', hclients⟩ := addClient_spec junk hl.sender t₁
  obtain rfl := Option.some.inj (hclient.symm.trans hclient')
  rw [hgrown.servers, hgrown.extends.ips_eq hlt] at hclients
  rw [hsame]
  exact hclients hserver hrouter

/-- The first line of a file is scanned and installed; what follows it is a file of the other lines. -/
lemma parseLsaLines_step {l : LsaLine} {lines : List LsaLine} {file : List UInt8} (hfile : IsLsaFile (l :: lines) file)
    (hl : l.Fits) : ∃ rest, IsLsaFile lines rest ∧ ∀ t, parseLsaLines junk (fgetsLines [] file) t =
      (updateNode junk l.sender l.seq l.csv t).bind (parseLsaLines junk (fgetsLines [] rest)) := by
  -- the first piece is the whole line
  obtain ⟨rest, hread, hrest⟩ : ∃ rest, ReadWhole l file rest ∧ IsLsaFile lines rest := by
    rcases isLsaFile_cons l hfile with ⟨rest, rfl, hrest⟩ | ⟨rfl, rfl⟩
    · exact ⟨rest, Or.inl ⟨rfl, hl.text⟩, hrest⟩
    · exact ⟨[], Or.inr ⟨rfl, rfl, (Nat.lt_succ_self _).trans hl.text⟩, Or.inl rfl⟩
  obtain ⟨tail, htail, hfgets⟩ := hread.pieces
  have hcsv := hread.csv
  have hscan := l.sscanf_text htail
  rw [if_neg (not_or.mpr ⟨Nat.not_le.mpr hl.sender, not_or.mpr ⟨Nat.not_le.mpr hl.seq, Nat.not_le.mpr hcsv⟩⟩)] at hscan
  refine ⟨rest, hrest, fun t => ?_⟩
  rw [hfgets, parseLsaLines_fields junk hscan]

/-- A file of lines that fit is parsed to its end. -/
theorem parseLsaLines_isSome (hjunk : ∀ a, junk.neighborNum a = 0) {lines : List LsaLine} {file : List UInt8}
    (hfile : IsLsaFile lines file) (hfits : ∀ l ∈ lines, l.Fits) {s : LinkState.State (List UInt8)}
    (R : Refines t s) (hlt : ∀ p ∈ t.servers.header, p < t.next) :
    ∃ t', parseLsaLines junk (fgetsLines [] file) t = some (0, t') ∧ Extends t t' ∧
      ∀ l ∈ lines, l.sender ∉ ips t t.servers.header → l.sender.head? ≠ some 114 → t'.clients.header ≠ [] := by
  induction lines generalizing file t s with
  | nil =>
    rw [hfile.nil_eq]
    exact ⟨t, by simp [fgetsLines, parseLsaLines], Extends.refl t, by simp⟩
  | cons l lines ih =>
    have hl := hfits l (by simp)
    obtain ⟨t₁, hupdate, hext, hclients⟩ := updateNode_isSome junk hjunk R hlt hl
    have R₁ : Refines t₁ (s.install l.lsa) :=
      updateNode_refines junk hjunk R l.strtok_csv l.count_csv hupdate
    have hlt₁ : ∀ p ∈ t₁.servers.header, p < t₁.next := by
      rw [hext.servers]
      exact fun p hp => (hlt p hp).trans_le hext.next
    obtain ⟨rest, hrest, hcons⟩ := parseLsaLines_step junk hfile hl
    obtain ⟨t₂, hparse, hext₂, hclients₂⟩ := ih hrest (fun m hm => hfits m (by simp [hm])) R₁ hlt₁
    refine ⟨t₂, ?_, hext.trans hext₂, fun m hm hserver hrouter => ?_⟩
    · rw [hcons, hupdate]
      exact hparse
    · rcases List.mem_cons.mp hm with rfl | hm
      · obtain ⟨new, hnew⟩ := hext₂.clients
        rw [hnew]
        exact List.append_ne_nil_of_right_ne_nil _ (hclients hserver hrouter)
      · refine hclients₂ m hm ?_ hrouter
        rwa [hext.servers, hext.ips_eq hlt]

/-- No clients, and two lists of nodes with the given addresses. -/
structure ServersRead (t : Topo) (nodes servers : List (List UInt8)) : Prop where
  nodes : ips t t.nodes.header = nodes
  servers : ips t t.servers.header = servers
  nodesNum : t.nodes.num = t.nodes.header.length
  serversNum : t.servers.num = t.servers.header.length
  clients : t.clients = ⟨[], 0⟩
  nodes_lt : ∀ p ∈ t.nodes.header, p < t.next
  servers_lt : ∀ p ∈ t.servers.header, p < t.next

lemma serversRead_init : ServersRead init [] [] :=
  ⟨rfl, rfl, rfl, rfl, rfl, by simp [init], by simp [init]⟩

lemma ips_alloc (ip : List UInt8) : ips (alloc junk t ip) [t.next] = [ip] := by
  simp [ips, alloc, newNode]

lemma addNodeByIpWithNum_old {ip : List UInt8} {l : NodeList} (hold : ip ∈ ips t l.header) :
    ∃ p, addNodeByIpWithNum junk t ip l = some (t, l, p) := by
  unfold addNodeByIpWithNum
  cases hexist : existInList t.heap ip l.header with
  | some p => exact ⟨p, rfl⟩
  | none =>
    obtain ⟨p, hp, hip⟩ := List.mem_map.mp hold
    exact absurd hip ((existInList_eq_none_iff _ _ _).mp hexist p hp)

/-- A line loses its last character, whatever it is. -/
lemma parseServerLines_eq {s : List UInt8} (hname : ∀ b ∈ s, b ≠ 0) {c : UInt8} (hc : c ≠ 0)
    (hfits : s.length + 1 < maxIpLen) (lines : List (List UInt8)) (t : Topo) :
    parseServerLines junk ((s ++ [c]) :: lines) t = (addNodeByIpWithNum junk t s t.nodes).bind fun r =>
      (addNodeByIpWithNum junk { r.1 with nodes := r.2.1 } s r.1.servers).bind fun r =>
        parseServerLines junk lines { r.1 with servers := r.2.1 } := by
  have hlen : ¬maxIpLen ≤ (s ++ [c]).length := by simpa using hfits
  have hcstr : cstr (s ++ [c]) = s ++ [c] := by
    rw [cstr_append s [c] hname]
    simp [cstr, hc]
  rw [parseServerLines, if_neg hlen, hcstr, if_neg (by simp), List.dropLast_concat]
  rfl

lemma ServersRead.addNew {names : List (List UInt8)} (I : ServersRead t names names) {s : List UInt8}
    (hip : s.length < maxIpLen) (hnew : s ∉ names) :
    ∃ t', addNodeByIpWithNum junk (addNode junk t s) s t.servers =
        some (t', ⟨(t.next + 1) :: t.servers.header, t.servers.num + 1⟩, t.next + 1) ∧
      ServersRead { t' with servers := ⟨(t.next + 1) :: t.servers.header, t.servers.num + 1⟩ }
        (s :: names) (s :: names) := by
  obtain ⟨t₁, ht₁⟩ : ∃ t₁, addNode junk t s = t₁ := ⟨_, rfl⟩
  have hext₁ : Extends t t₁ := ht₁ ▸ (grown_addNode junk s).extends
  have hnext₁ : t₁.next = t.next + 1 := by rw [← ht₁]; rfl
  have hips₁ : ips t₁ t.servers.header = names := by rw [hext₁.ips_eq I.servers_lt, I.servers]
  have hservers := addNodeByIpWithNum_new junk hip (t := t₁) (l := t.servers) (by rwa [hips₁])
  have hext₂ := extends_alloc junk t₁ s
  have hnodes₁ : t₁.nodes = ⟨t.next :: t.nodes.header, t.nodes.num + 1⟩ := by rw [← ht₁]; rfl
  have hlt₁ : ∀ p ∈ t₁.nodes.header, p < t₁.next := by
    rw [hnodes₁, hnext₁]
    intro p hp
    rcases List.mem_cons.mp hp with rfl | hp
    · exact Nat.lt_succ_self _
    · exact (I.nodes_lt p hp).trans (Nat.lt_succ_self _)
  have hfirst : (t₁.heap t.next).ip = s := by
    rw [← ht₁, addNode_heap_next]
    rfl
  rw [ht₁]
  rw [hnext₁] at hservers
  refine ⟨alloc junk t₁ s, hservers, ?_, ?_, ?_, ?_, ?_, fun p hp => ?_, fun p hp => ?_⟩
  · change ips (alloc junk t₁ s) t₁.nodes.header = s :: names
    rw [hext₂.ips_eq hlt₁, hnodes₁]
    change (t₁.heap t.next).ip :: ips t₁ t.nodes.header = s :: names
    rw [hfirst, hext₁.ips_eq I.nodes_lt, I.nodes]
  · change ips (alloc junk t₁ s) ((t.next + 1) :: t.servers.header) = s :: names
    rw [← hnext₁]
    change ips (alloc junk t₁ s) [t₁.next] ++ ips (alloc junk t₁ s) t.servers.header = s :: names
    rw [ips_alloc, hext₂.ips_eq, hips₁]
    · rfl
    · rw [hnext₁]
      exact fun p hp => (I.servers_lt p hp).trans (Nat.lt_succ_self _)
  · change t₁.nodes.num = t₁.nodes.header.length
    simp [hnodes₁, I.nodesNum]
  · change t.servers.num + 1 = t.servers.header.length + 1
    rw [I.serversNum]
  · change t₁.clients = ⟨[], 0⟩
    rw [← ht₁]
    exact I.clients
  · exact (hlt₁ p hp).trans (Nat.lt_succ_self _)
  · change p ∈ (t.next + 1) :: t.servers.header at hp
    change p < t₁.next + 1
    rw [hnext₁]
    rcases List.mem_cons.mp hp with rfl | hp
    · exact Nat.lt_succ_self _
    · have hlt := I.servers_lt p hp
      omega

/-- One line of the file: its name is put in front of both lists, unless it is there. -/
lemma parseServerLines_cons {names : List (List UInt8)} (I : ServersRead t names names) {s : List UInt8}
    (hname : ∀ b ∈ s, b ≠ 0) {c : UInt8} (hc : c ≠ 0) (hfits : s.length + 1 < maxIpLen)
    (lines : List (List UInt8)) :
    ∃ t', parseServerLines junk ((s ++ [c]) :: lines) t = parseServerLines junk lines t' ∧
      ServersRead t' (names.insert s) (names.insert s) := by
  have hip : s.length < maxIpLen := by omega
  rw [parseServerLines_eq junk hname hc hfits]
  by_cases hold : s ∈ names
  · obtain ⟨p, hnodes⟩ := addNodeByIpWithNum_old junk (t := t) (l := t.nodes) (by rwa [I.nodes])
    obtain ⟨q, hservers⟩ := addNodeByIpWithNum_old junk (t := t) (l := t.servers) (by rwa [I.servers])
    rw [List.insert_of_mem hold, hnodes, Option.bind_some]
    dsimp only
    rw [hservers, Option.bind_some]
    exact ⟨t, rfl, I⟩
  · have hnodes := addNodeByIpWithNum_new junk hip (t := t) (l := t.nodes) (by rwa [I.nodes])
    obtain ⟨t₁, hservers, I₁⟩ := I.addNew junk hip hold
    rw [List.insert_of_not_mem hold, hnodes, Option.bind_some]
    change ∃ t', ((addNodeByIpWithNum junk (addNode junk t s) s t.servers).bind fun r =>
      parseServerLines junk lines { r.1 with servers := r.2.1 }) = _ ∧ _
    rw [hservers]
    exact ⟨_, rfl, I₁⟩

lemma parseServerLines_isSome {servers names : List (List UInt8)} (I : ServersRead t names names)
    (hname : ∀ s ∈ servers, ∀ b ∈ s, b ≠ 0 ∧ b ≠ 10) (hfits : ∀ s ∈ servers, s.length + 1 < maxIpLen)
    (hdistinct : (servers.reverse ++ names).Nodup) :
    ∃ t', parseServerLines junk (servers.map fun s => s ++ [10]) t = some t' ∧
      ServersRead t' (servers.reverse ++ names) (servers.reverse ++ names) := by
  induction servers generalizing t names with
  | nil => exact ⟨t, rfl, I⟩
  | cons s servers ih =>
    rw [List.reverse_cons, List.append_assoc, List.singleton_append] at hdistinct ⊢
    have hnew : s ∉ names := (List.nodup_cons.mp (List.nodup_append.mp hdistinct).2.1).1
    obtain ⟨t₁, hcons, I₁⟩ := parseServerLines_cons junk I (fun b hb => (hname s (by simp) b hb).1) (c := 10) (by decide)
      (hfits s (by simp)) (servers.map fun s => s ++ [10])
    rw [List.insert_of_not_mem hnew] at I₁
    obtain ⟨t₂, hrest, I₂⟩ := ih I₁ (fun x hx => hname x (by simp [hx])) (fun x hx => hfits x (by simp [hx]))
      hdistinct
    exact ⟨t₂, by rw [List.map_cons, hcons, hrest], I₂⟩

lemma fgetsLines_lines {servers : List (List UInt8)} (hname : ∀ s ∈ servers, (10 : UInt8) ∉ s)
    (hfits : ∀ s ∈ servers, s.length + 1 < maxLineLen) (rest : List UInt8) :
    fgetsLines [] ((servers.flatMap fun s => s ++ [10]) ++ rest) =
      (servers.map fun s => s ++ [10]) ++ fgetsLines [] rest := by
  induction servers with
  | nil => rfl
  | cons s servers ih =>
    have h := fgetsLines_short (hname s (by simp)) [] (by simpa using hfits s (by simp))
      ((servers.flatMap fun s => s ++ [10]) ++ rest)
    rw [ih (fun x hx => hname x (by simp [hx])) fun x hx => hfits x (by simp [hx])] at h
    simpa using h

/-- At its end `parse_server_file` reverses the list of servers. -/
lemma ServersRead.reverse {nodes servers : List (List UInt8)} (I : ServersRead t nodes servers) :
    ServersRead { t with servers := { t.servers with header := t.servers.header.reverse } } nodes servers.reverse := by
  refine ⟨I.nodes, ?_, I.nodesNum, ?_, I.clients, I.nodes_lt, fun p hp => I.servers_lt p (List.mem_reverse.mp hp)⟩
  · change ips t t.servers.header.reverse = servers.reverse
    rw [ips, List.map_reverse]
    exact congrArg List.reverse I.servers
  · change t.servers.num = t.servers.header.reverse.length
    rw [List.length_reverse, I.serversNum]

/-- A servers file is read in its order. -/
theorem parseServerFile_isSome {servers : List (List UInt8)} {file : List UInt8}
    (hfile : IsServerFile servers file) :
    ∃ t, parseServerFile junk (some file) init = some (0, t) ∧ ServersRead t servers.reverse servers := by
  have hshort : ∀ s ∈ servers, s.length + 1 < maxLineLen := by
    intro s hs
    have hfits := hfile.fits s hs
    simp only [maxIpLen, maxLineLen] at hfits ⊢
    omega
  have hlines := fgetsLines_lines (fun s hs h10 => ((hfile.name s hs).2 10 h10).2 rfl) hshort []
  rw [List.append_nil, fgetsLines, if_pos rfl, List.append_nil] at hlines
  obtain ⟨t, ht, I⟩ := parseServerLines_isSome junk serversRead_init (fun s hs => (hfile.name s hs).2) hfile.fits
    (by simpa using hfile.distinct)
  rw [List.append_nil] at I
  refine ⟨{ t with servers := { t.servers with header := t.servers.header.reverse } }, ?_, ?_⟩
  · rw [parseServerFile, hfile.text, hlines, ht]
    rfl
  · have hreversed := I.reverse
    rwa [List.reverse_reverse] at hreversed

end VideoCDN.Nameserver
