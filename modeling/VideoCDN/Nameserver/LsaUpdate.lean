import VideoCDN.Lib.LinkState
import VideoCDN.Nameserver.Routing

/-!
# The neighbor arrays refine the link state

One line of an LSA file installs one announcement: the array of its sender is replaced and
the reverse links are added, whatever `malloc` left in the new array.
-/

namespace VideoCDN.Nameserver

open CString LinkState

/-- Some node carries the address `ip`. -/
def IsName (t : Topo) (ip : List UInt8) : Prop := ∃ p ∈ t.nodes.header, (t.heap p).ip = ip

/-- The node with address `u` has the node with address `v` among its neighbors. -/
def LinksTo (t : Topo) (u v : List UInt8) : Prop :=
  ∃ p ∈ t.nodes.header, ∃ q ∈ t.nodes.header, (t.heap p).ip = u ∧ (t.heap q).ip = v ∧ Adj t p q

/-- The array of `p` is full of listed nodes. -/
structure IsComplete (t : Topo) (p : Nat) : Prop where
  num : (t.heap p).neighborNum = (t.heap p).neighbors.length
  filled : ∀ slot ∈ (t.heap p).neighbors, ∃ q ∈ t.nodes.header, slot = .filled q

/-- The nodes have distinct addresses and were allocated. -/
structure IsNamed (t : Topo) : Prop where
  ips : (t.nodes.header.map fun p => (t.heap p).ip).Nodup
  lt : ∀ p ∈ t.nodes.header, p < t.next

/-- `t'` holds the nodes of `t` with their addresses, and new nodes without announcement. -/
structure Grown (t t' : Topo) : Prop where
  next : t.next ≤ t'.next
  ip : ∀ p < t.next, (t'.heap p).ip = (t.heap p).ip
  seqNum : ∀ p < t.next, (t'.heap p).seqNum = (t.heap p).seqNum
  nodes : ∃ new, t'.nodes = ⟨new ++ t.nodes.header, new.length + t.nodes.num⟩ ∧
    ∀ p ∈ new, t.next ≤ p ∧ (t'.heap p).seqNum = -1
  servers : t'.servers = t.servers
  clients : t'.clients = t.clients

lemma Grown.refl (t : Topo) : Grown t t :=
  ⟨le_rfl, fun _ _ => rfl, fun _ _ => rfl, ⟨[], by simp⟩, rfl, rfl⟩

lemma Grown.trans {t t' t'' : Topo} (h : Grown t t') (h' : Grown t' t'') (hlt : IsNamed t') : Grown t t'' := by
  obtain ⟨new, hnew, hseq⟩ := h.nodes
  obtain ⟨new', hnew', hseq'⟩ := h'.nodes
  refine ⟨h.next.trans h'.next, fun p hp => ?_, fun p hp => ?_, ⟨new' ++ new, ?_, fun p hp => ?_⟩,
    h'.servers.trans h.servers, h'.clients.trans h.clients⟩
  · exact (h'.ip p (hp.trans_le h.next)).trans (h.ip p hp)
  · exact (h'.seqNum p (hp.trans_le h.next)).trans (h.seqNum p hp)
  · rw [hnew', hnew]
    simp [Nat.add_assoc]
  · rcases List.mem_append.mp hp with hp | hp
    · exact ⟨h.next.trans (hseq' p hp).1, (hseq' p hp).2⟩
    · have hlt' := hlt.lt p (by rw [hnew]; simp [hp])
      exact ⟨(hseq p hp).1, (h'.seqNum p hlt').trans (hseq p hp).2⟩

/-- Same nodes, with other neighbors, numbers or marks. -/
structure SameNodes (t t' : Topo) : Prop where
  next : t'.next = t.next
  ip : ∀ p, (t'.heap p).ip = (t.heap p).ip
  seqNum : ∀ p, (t'.heap p).seqNum = (t.heap p).seqNum
  nodes : t'.nodes = t.nodes
  servers : t'.servers = t.servers
  clients : t'.clients = t.clients

variable {t t' : Topo}

lemma SameNodes.grown (h : SameNodes t t') : Grown t t' :=
  ⟨h.next.ge, fun p _ => h.ip p, fun p _ => h.seqNum p, ⟨[], by simp [h.nodes]⟩, h.servers, h.clients⟩

lemma SameNodes.isNamed (h : SameNodes t t') (hn : IsNamed t) : IsNamed t' := by
  refine ⟨?_, fun p hp => ?_⟩
  · simpa only [h.nodes, h.ip] using hn.ips
  · rw [h.next]
    exact hn.lt p (by rwa [h.nodes] at hp)

lemma isNamed_eq_of_ip (hn : IsNamed t) {p q : Nat} (hp : p ∈ t.nodes.header) (hq : q ∈ t.nodes.header)
    (h : (t.heap p).ip = (t.heap q).ip) : p = q :=
  List.inj_on_of_nodup_map hn.ips hp hq h

lemma linksTo_congr (hnodes : t'.nodes = t.nodes) (hip : ∀ p, (t'.heap p).ip = (t.heap p).ip) {n : Nat}
    (hne : ∀ p ≠ n, (t'.heap p).neighbors = (t.heap p).neighbors) {u : List UInt8} (hu : u ≠ (t.heap n).ip)
    (v : List UInt8) : LinksTo t' u v ↔ LinksTo t u v := by
  simp only [LinksTo, hnodes, hip, Adj]
  refine exists_congr fun p => and_congr_right fun _ => exists_congr fun q => and_congr_right fun _ =>
    and_congr_right fun hpu => and_congr_right fun _ => ?_
  have hpn : p ≠ n := fun heq => hu (by rw [← hpu, heq])
  rw [hne p hpn]

variable (junk : Junk)

/-- The nodes with a new one allocated. -/
def alloc (t : Topo) (ip : List UInt8) : Topo :=
  { t with heap := Function.update t.heap t.next (newNode junk t ip), next := t.next + 1 }

/-- The nodes with a new one allocated at the front of `nodes`. -/
def addNode (t : Topo) (ip : List UInt8) : Topo :=
  { alloc junk t ip with nodes := ⟨t.next :: t.nodes.header, t.nodes.num + 1⟩ }

lemma existInList_eq_some {heap : Nat → Node} {ip : List UInt8} {header : List Nat} {p : Nat}
    (h : existInList heap ip header = some p) : p ∈ header ∧ (heap p).ip = ip :=
  ⟨List.mem_of_find?_eq_some h, by simpa using List.find?_some h⟩

/-- A node is found in its list, or allocated and put in front of it. -/
lemma addNodeByIpWithNum_cases {ip : List UInt8} {l l' : NodeList} {p : Nat}
    (h : addNodeByIpWithNum junk t ip l = some (t', l', p)) :
    (p ∈ l.header ∧ (t.heap p).ip = ip ∧ t' = t ∧ l' = l) ∨
      ((∀ q ∈ l.header, (t.heap q).ip ≠ ip) ∧ t' = alloc junk t ip ∧
        l' = ⟨t.next :: l.header, l.num + 1⟩ ∧ p = t.next) := by
  unfold addNodeByIpWithNum at h
  cases hexist : existInList t.heap ip l.header with
  | some q =>
    simp only [hexist, Option.some.injEq, Prod.mk.injEq] at h
    obtain ⟨rfl, rfl, rfl⟩ := h
    obtain ⟨hq, hip⟩ := existInList_eq_some hexist
    exact Or.inl ⟨hq, hip, rfl, rfl⟩
  | none =>
    simp only [hexist] at h
    split at h
    · cases h
    · simp only [Option.some.injEq, Prod.mk.injEq] at h
      obtain ⟨rfl, rfl, rfl⟩ := h
      exact Or.inr ⟨(existInList_eq_none_iff _ _ _).mp hexist, rfl, rfl, rfl⟩

lemma addNodeByIpWithNum_isSome {ip : List UInt8} (hip : ip.length < maxIpLen) (t : Topo) (l : NodeList) :
    ∃ t' l' p, addNodeByIpWithNum junk t ip l = some (t', l', p) := by
  unfold addNodeByIpWithNum
  cases existInList t.heap ip l.header with
  | some p => exact ⟨t, l, p, rfl⟩
  | none => exact ⟨_, _, _, by rw [if_neg (Nat.not_le.mpr hip)]⟩

lemma neighborNode_eq (t : Topo) (ip : List UInt8) :
    neighborNode junk t ip = (addNodeByIpWithNum junk t ip t.nodes).map fun r =>
      ({ r.1 with nodes := r.2.1 }, r.2.2) := by
  unfold neighborNode
  cases hexist : existInList t.heap ip t.nodes.header with
  | some p => simp [addNodeByIpWithNum, hexist]
  | none => cases addNodeByIpWithNum junk t ip t.nodes <;> rfl

lemma neighborNode_isSome {ip : List UInt8} (hip : ip.length < maxIpLen) (t : Topo) :
    ∃ t' p, neighborNode junk t ip = some (t', p) := by
  obtain ⟨t₁, l, p, hadd⟩ := addNodeByIpWithNum_isSome junk hip t t.nodes
  exact ⟨{ t₁ with nodes := l }, p, by rw [neighborNode_eq, hadd]; rfl⟩

lemma neighborNode_cases {ip : List UInt8} {p : Nat} (h : neighborNode junk t ip = some (t', p)) :
    (t' = t ∧ p ∈ t.nodes.header ∧ (t.heap p).ip = ip) ∨
      (¬IsName t ip ∧ t' = addNode junk t ip ∧ p = t.next) := by
  rw [neighborNode_eq] at h
  obtain ⟨⟨t₁, nodes, q⟩, hadd, h⟩ := Option.map_eq_some_iff.mp h
  obtain ⟨rfl, rfl⟩ := Prod.mk.inj h
  rcases addNodeByIpWithNum_cases junk hadd with ⟨hq, hip, rfl, rfl⟩ | ⟨hnew, rfl, rfl, rfl⟩
  · exact Or.inl ⟨rfl, hq, hip⟩
  · refine Or.inr ⟨?_, rfl, rfl⟩
    rintro ⟨r, hr, hip⟩
    exact hnew r hr hip

lemma addNode_heap_of_lt (ip : List UInt8) {p : Nat} (hp : p < t.next) :
    (addNode junk t ip).heap p = t.heap p := Function.update_of_ne hp.ne _ _

lemma addNode_heap_next (ip : List UInt8) : (addNode junk t ip).heap t.next = newNode junk t ip :=
  Function.update_self _ _ _

lemma mem_addNode (ip : List UInt8) (p : Nat) :
    p ∈ (addNode junk t ip).nodes.header ↔ p = t.next ∨ p ∈ t.nodes.header := List.mem_cons

lemma isNamed_addNode (hn : IsNamed t) {ip : List UInt8} (hip : ¬IsName t ip) :
    IsNamed (addNode junk t ip) := by
  constructor
  · have hold : t.nodes.header.map (fun p => ((addNode junk t ip).heap p).ip) =
        t.nodes.header.map fun p => (t.heap p).ip :=
      List.map_congr_left fun p hp => by rw [addNode_heap_of_lt junk ip (hn.lt p hp)]
    change ((t.next :: t.nodes.header).map _).Nodup
    rw [List.map_cons, hold, addNode_heap_next, List.nodup_cons]
    refine ⟨fun hmem => ?_, hn.ips⟩
    obtain ⟨p, hp, heq⟩ := List.mem_map.mp hmem
    exact hip ⟨p, hp, heq⟩
  · intro p hp
    rcases (mem_addNode junk ip p).mp hp with rfl | hp
    · exact Nat.lt_succ_self _
    · exact (hn.lt p hp).trans (Nat.lt_succ_self _)

lemma grown_addNode (ip : List UInt8) : Grown t (addNode junk t ip) := by
  refine ⟨Nat.le_succ _, fun p hp => ?_, fun p hp => ?_, ⟨[t.next], ?_, fun p hp => ?_⟩, rfl, rfl⟩
  · rw [addNode_heap_of_lt junk ip hp]
  · rw [addNode_heap_of_lt junk ip hp]
  · simp [addNode, Nat.add_comm]
  · obtain rfl := List.mem_singleton.mp hp
    exact ⟨le_rfl, by rw [addNode_heap_next]; rfl⟩

lemma isName_addNode (hn : IsNamed t) (ip v : List UInt8) :
    IsName (addNode junk t ip) v ↔ IsName t v ∨ v = ip := by
  constructor
  · rintro ⟨p, hp, hv⟩
    rcases (mem_addNode junk ip p).mp hp with rfl | hp
    · rw [addNode_heap_next] at hv
      exact Or.inr hv.symm
    · rw [addNode_heap_of_lt junk ip (hn.lt p hp)] at hv
      exact Or.inl ⟨p, hp, hv⟩
  · rintro (⟨p, hp, hv⟩ | rfl)
    · exact ⟨p, (mem_addNode junk ip p).mpr (Or.inr hp), by rwa [addNode_heap_of_lt junk ip (hn.lt p hp)]⟩
    · exact ⟨t.next, (mem_addNode junk v _).mpr (Or.inl rfl), by rw [addNode_heap_next]; rfl⟩

lemma isComplete_addNode_old (hn : IsNamed t) (ip : List UInt8) {p : Nat} (hp : p ∈ t.nodes.header)
    (hc : IsComplete t p) : IsComplete (addNode junk t ip) p := by
  have heq := addNode_heap_of_lt junk ip (hn.lt p hp)
  refine ⟨by rw [heq]; exact hc.num, fun slot hslot => ?_⟩
  rw [heq] at hslot
  obtain ⟨q, hq, rfl⟩ := hc.filled slot hslot
  exact ⟨q, (mem_addNode junk ip q).mpr (Or.inr hq), rfl⟩

lemma isComplete_addNode_next (hjunk : ∀ a, junk.neighborNum a = 0) (ip : List UInt8) :
    IsComplete (addNode junk t ip) t.next := by
  constructor
  · rw [addNode_heap_next]
    exact hjunk t.next
  · rw [addNode_heap_next]
    simp [newNode]

/-- No complete node has a link to a node that was just allocated. -/
lemma linksTo_addNode (hn : IsNamed t) (ip : List UInt8) {u : List UInt8}
    (hc : ∀ p ∈ t.nodes.header, (t.heap p).ip = u → IsComplete t p) (v : List UInt8) :
    LinksTo (addNode junk t ip) u v ↔ LinksTo t u v := by
  constructor
  · rintro ⟨p, hp, q, hq, hpu, hqv, hadj⟩
    rcases (mem_addNode junk ip p).mp hp with rfl | hp
    · rw [Adj, addNode_heap_next] at hadj
      simp [newNode] at hadj
    · have heq := addNode_heap_of_lt junk ip (hn.lt p hp)
      rw [heq] at hpu
      rw [Adj, heq] at hadj
      obtain ⟨q', hq', hslot⟩ := (hc p hp hpu).filled _ hadj
      cases hslot
      rw [addNode_heap_of_lt junk ip (hn.lt q hq')] at hqv
      exact ⟨p, hp, q, hq', hpu, hqv, hadj⟩
  · rintro ⟨p, hp, q, hq, hpu, hqv, hadj⟩
    refine ⟨p, (mem_addNode junk ip p).mpr (Or.inr hp), q, (mem_addNode junk ip q).mpr (Or.inr hq), ?_, ?_, ?_⟩
    · rwa [addNode_heap_of_lt junk ip (hn.lt p hp)]
    · rwa [addNode_heap_of_lt junk ip (hn.lt q hq)]
    · rwa [Adj, addNode_heap_of_lt junk ip (hn.lt p hp)]

/-- `t'` differs from `t` in the neighbor array of `n`, which is now `slots`. -/
structure Rewired (t t' : Topo) (n : Nat) (slots : List Slot) : Prop where
  same : SameNodes t t'
  others : ∀ p ≠ n, t'.heap p = t.heap p
  neighbors : (t'.heap n).neighbors = slots
  num : (t'.heap n).neighborNum = slots.length

lemma addReverseNeighbor_spec {n : Nat} (nb : Nat) (hnum : (t.heap n).neighborNum = (t.heap n).neighbors.length) :
    ∃ t' slots, addReverseNeighbor t n nb = some t' ∧ Rewired t t' n slots ∧
      (slots = (t.heap n).neighbors ∧ (∃ slot ∈ slots, slot.value = some nb) ∨
        slots = (t.heap n).neighbors ++ [.filled nb]) := by
  have hread : (t.heap n).neighbors.take (t.heap n).neighborNum.toNat = (t.heap n).neighbors := by
    rw [hnum]
    exact List.take_length
  unfold addReverseNeighbor
  simp only [hread]
  by_cases hfound : ((t.heap n).neighbors.any fun slot => slot.value = some nb) = true
  · rw [if_pos hfound]
    refine ⟨t, _, rfl, ⟨⟨rfl, fun _ => rfl, fun _ => rfl, rfl, rfl, rfl⟩, fun _ _ => rfl, rfl, hnum⟩,
      Or.inl ⟨rfl, ?_⟩⟩
    simpa using hfound
  · rw [if_neg hfound, if_neg (by simp [hnum])]
    refine ⟨_, _, rfl, ⟨⟨rfl, fun p => ?_, fun p => ?_, rfl, rfl, rfl⟩, fun p hp => ?_, ?_, ?_⟩, Or.inr rfl⟩
    · by_cases hp : p = n <;> simp [hp]
    · by_cases hp : p = n <;> simp [hp]
    · simp [hp]
    · simp
    · simp [hnum]

lemma setNeighbor_spec {n p : Nat} {pre post : List Slot} {x : Slot}
    (hnum : (t.heap n).neighborNum = (t.heap n).neighbors.length)
    (hslots : (t.heap n).neighbors = pre ++ x :: post) :
    ∃ t', setNeighbor t n pre.length p = some t' ∧ Rewired t t' n (pre ++ .filled p :: post) := by
  have hstore := Buffer.store_at _ pre post x (.filled p) pre.length hslots rfl
  simp only [setNeighbor, hstore, Option.bind_eq_bind, Option.bind_some]
  refine ⟨_, rfl, ⟨rfl, fun q => ?_, fun q => ?_, rfl, rfl, rfl⟩, fun q hq => ?_, ?_, ?_⟩
  · by_cases hq : q = n <;> simp [hq]
  · by_cases hq : q = n <;> simp [hq]
  · simp [hq]
  · simp
  · simp [hnum, hslots]

/-- The loop has filled the first slots of the array of `now` with `ptrs`; `mid` is still to be
filled, and `ext` was added where `now` lists itself. -/
structure Filling (t : Topo) (now : Nat) (ptrs : List Nat) (mid ext : List Slot) : Prop where
  named : IsNamed t
  mem : now ∈ t.nodes.header
  others : ∀ p ∈ t.nodes.header, p ≠ now → IsComplete t p
  num : (t.heap now).neighborNum = (t.heap now).neighbors.length
  slots : (t.heap now).neighbors = ptrs.map .filled ++ mid ++ ext
  ptrs_mem : ∀ p ∈ ptrs, p ∈ t.nodes.header
  ext_now : ∀ slot ∈ ext, slot = .filled now ∧ now ∈ ptrs

section Round

variable {now : Nat} {ptrs : List Nat} {mid ext : List Slot}

lemma Filling.complete_of_ip_ne (F : Filling t now ptrs mid ext) {u : List UInt8} (hu : u ≠ (t.heap now).ip) :
    ∀ p ∈ t.nodes.header, (t.heap p).ip = u → IsComplete t p := by
  intro p hp hpu
  refine F.others p hp ?_
  rintro rfl
  exact hu hpu.symm

lemma Filling.addNode (hjunk : ∀ a, junk.neighborNum a = 0) (F : Filling t now ptrs mid ext) {ip : List UInt8}
    (hip : ¬IsName t ip) : Filling (addNode junk t ip) now ptrs mid ext := by
  have heq := addNode_heap_of_lt junk ip (F.named.lt now F.mem)
  refine ⟨isNamed_addNode junk F.named hip, (mem_addNode junk ip now).mpr (Or.inr F.mem), fun p hp hne => ?_,
    by rw [heq]; exact F.num, by rw [heq]; exact F.slots,
    fun p hp => (mem_addNode junk ip p).mpr (Or.inr (F.ptrs_mem p hp)), F.ext_now⟩
  rcases (mem_addNode junk ip p).mp hp with rfl | hp
  · exact isComplete_addNode_next junk hjunk ip
  · exact isComplete_addNode_old junk F.named ip hp (F.others p hp hne)

/-- What one round, for the neighbor `ip`, does to the names and the links. -/
structure RoundEffect (t t' : Topo) (now : Nat) (ip : List UInt8) : Prop where
  grown : Grown t t'
  names : ∀ v, IsName t' v ↔ IsName t v ∨ v = ip
  links : ∀ u ≠ (t.heap now).ip, ∀ v, LinksTo t' u v ↔ LinksTo t u v ∨ (u = ip ∧ v = (t.heap now).ip)

lemma neighborNode_spec (hjunk : ∀ a, junk.neighborNum a = 0) (F : Filling t now ptrs mid ext)
    {ip : List UInt8} {p : Nat} (h : neighborNode junk t ip = some (t', p)) :
    Filling t' now ptrs mid ext ∧ p ∈ t'.nodes.header ∧ (t'.heap p).ip = ip ∧ Grown t t' ∧
      (∀ v, IsName t' v ↔ IsName t v ∨ v = ip) ∧
      ∀ u ≠ (t.heap now).ip, ∀ v, LinksTo t' u v ↔ LinksTo t u v := by
  rcases neighborNode_cases junk h with ⟨rfl, hp, hip⟩ | ⟨hip, rfl, rfl⟩
  · refine ⟨F, hp, hip, Grown.refl _, fun v => ⟨Or.inl, ?_⟩, fun _ _ _ => Iff.rfl⟩
    rintro (hv | rfl)
    · exact hv
    · exact ⟨p, hp, hip⟩
  · refine ⟨F.addNode junk hjunk hip, (mem_addNode junk ip _).mpr (Or.inl rfl), ?_, grown_addNode junk ip,
      isName_addNode junk F.named ip, fun u hu v => linksTo_addNode junk F.named ip (F.complete_of_ip_ne hu) v⟩
    rw [addNode_heap_next]
    rfl

lemma SameNodes.isName (h : SameNodes t t') (v : List UInt8) : IsName t' v ↔ IsName t v := by
  simp only [IsName, h.nodes, h.ip]

lemma rewired_other (F : Filling t now ptrs mid ext) {p : Nat} (hp : p ∈ t.nodes.header) (hne : p ≠ now)
    {slots : List Slot} (R : Rewired t t' p slots)
    (hslots : slots = (t.heap p).neighbors ∧ (∃ slot ∈ slots, slot.value = some now) ∨
      slots = (t.heap p).neighbors ++ [.filled now]) :
    Filling t' now ptrs mid ext ∧ ∀ u ≠ (t.heap now).ip, ∀ v,
      LinksTo t' u v ↔ LinksTo t u v ∨ (u = (t.heap p).ip ∧ v = (t.heap now).ip) := by
  have hnow := R.others now (Ne.symm hne)
  have hc := F.others p hp hne
  have hmem : ∀ slot, slot ∈ slots ↔ slot ∈ (t.heap p).neighbors ∨ slot = .filled now := by
    intro slot
    rcases hslots with ⟨rfl, slot', hslot', hval⟩ | rfl
    · obtain ⟨q, -, rfl⟩ := hc.filled slot' hslot'
      obtain rfl : q = now := Option.some.inj hval
      constructor
      · exact Or.inl
      · rintro (h | rfl)
        · exact h
        · exact hslot'
    · simp
  constructor
  · refine ⟨R.same.isNamed F.named, by rw [R.same.nodes]; exact F.mem, fun q hq hqn => ?_, by rw [hnow]; exact F.num,
      by rw [hnow]; exact F.slots, fun q hq => by rw [R.same.nodes]; exact F.ptrs_mem q hq, F.ext_now⟩
    rw [R.same.nodes] at hq
    by_cases hqp : q = p
    · subst hqp
      refine ⟨by rw [R.num, R.neighbors], fun slot hslot => ?_⟩
      rw [R.neighbors, hmem] at hslot
      rw [R.same.nodes]
      rcases hslot with hslot | rfl
      · exact hc.filled slot hslot
      · exact ⟨now, F.mem, rfl⟩
    · have hq' := F.others q hq hqn
      have heq := R.others q hqp
      exact ⟨by rw [heq]; exact hq'.num, fun slot hslot => by
        rw [R.same.nodes]
        exact hq'.filled slot (by rwa [heq] at hslot)⟩
  · intro u hu v
    by_cases hup : u = (t.heap p).ip
    · subst hup
      simp only [LinksTo, R.same.nodes, R.same.ip]
      constructor
      · rintro ⟨q, hq, r, hr, hqu, hrv, hadj⟩
        obtain rfl := isNamed_eq_of_ip F.named hq hp hqu
        rw [Adj, R.neighbors, hmem] at hadj
        rcases hadj with hadj | hadj
        · exact Or.inl ⟨q, hq, r, hr, hqu, hrv, hadj⟩
        · cases hadj
          exact Or.inr ⟨trivial, hrv.symm⟩
      · rintro (⟨q, hq, r, hr, hqu, hrv, hadj⟩ | ⟨-, rfl⟩)
        · obtain rfl := isNamed_eq_of_ip F.named hq hp hqu
          exact ⟨q, hq, r, hr, hqu, hrv, by rw [Adj, R.neighbors, hmem]; exact Or.inl hadj⟩
        · exact ⟨p, hp, now, F.mem, rfl, rfl, by rw [Adj, R.neighbors, hmem]; exact Or.inr rfl⟩
    · rw [linksTo_congr R.same.nodes R.same.ip (fun q hq => by rw [R.others q hq]) hup]
      simp [hup]

lemma rewired_now {p : Nat} {ext' : List Slot} (hn : IsNamed t) (hmem : now ∈ t.nodes.header)
    (hothers : ∀ q ∈ t.nodes.header, q ≠ now → IsComplete t q) (hptrs : ∀ q ∈ ptrs, q ∈ t.nodes.header)
    (hp : p ∈ t.nodes.header) (hext : ∀ slot ∈ ext', slot = .filled now ∧ now ∈ ptrs ++ [p])
    (R : Rewired t t' now (ptrs.map .filled ++ .filled p :: (mid ++ ext'))) :
    Filling t' now (ptrs ++ [p]) mid ext' := by
  refine ⟨R.same.isNamed hn, by rw [R.same.nodes]; exact hmem, fun q hq hqn => ?_, by rw [R.num, R.neighbors],
    by rw [R.neighbors]; simp, fun q hq => ?_, hext⟩
  · rw [R.same.nodes] at hq
    have hc := hothers q hq hqn
    have heq := R.others q hqn
    exact ⟨by rw [heq]; exact hc.num, fun slot hslot => by
      rw [R.same.nodes]
      exact hc.filled slot (by rwa [heq] at hslot)⟩
  · rw [R.same.nodes]
    rcases List.mem_append.mp hq with hq | hq
    · exact hptrs q hq
    · rw [List.mem_singleton.mp hq]
      exact hp

/-- One round fills the next slot, with the reverse link added once. -/
theorem neighborRound_spec (hjunk : ∀ a, junk.neighborNum a = 0) {x : Slot}
    (F : Filling t now ptrs (x :: mid) ext) {ip : List UInt8}
    (h : neighborRound junk now ptrs.length ip t = some t') :
    ∃ p ext', Filling t' now (ptrs ++ [p]) mid ext' ∧ (t'.heap p).ip = ip ∧ RoundEffect t t' now ip := by
  simp only [neighborRound, Option.bind_eq_bind, Option.bind_eq_some_iff] at h
  obtain ⟨⟨t₁, p⟩, hnode, t₂, hrev, hset⟩ := h
  obtain ⟨F₁, hp, hip, hgrown, hnames, hlinks⟩ := neighborNode_spec junk hjunk F hnode
  have hnowip : (t₁.heap now).ip = (t.heap now).ip := hgrown.ip now (F.named.lt now F.mem)
  have hlen : ptrs.length = (ptrs.map Slot.filled).length := (List.length_map _).symm
  by_cases hpn : p = now
  · -- the sender lists itself
    subst hpn
    obtain ⟨t₂', slots, hrev', R, hslots⟩ := addReverseNeighbor_spec p F₁.num
    obtain rfl := Option.some.inj (hrev'.symm.trans hrev)
    obtain ⟨ext', hext', hneighbors⟩ : ∃ ext', (∀ slot ∈ ext', slot = .filled p) ∧
        (t₂'.heap p).neighbors = ptrs.map .filled ++ x :: (mid ++ ext') := by
      rcases hslots with ⟨rfl, -⟩ | rfl
      · exact ⟨ext, fun slot hslot => (F₁.ext_now slot hslot).1, by rw [R.neighbors, F₁.slots]; simp⟩
      · refine ⟨ext ++ [.filled p], fun slot hslot => ?_, by rw [R.neighbors, F₁.slots]; simp⟩
        rcases List.mem_append.mp hslot with hslot | hslot
        · exact (F₁.ext_now slot hslot).1
        · exact List.mem_singleton.mp hslot
    obtain ⟨t₃, hset', R'⟩ := setNeighbor_spec (p := p) (by rw [R.num, R.neighbors]) hneighbors
    rw [← hlen] at hset'
    obtain rfl := Option.some.inj (hset'.symm.trans hset)
    have hsame : ∀ q ∈ t₂'.nodes.header, q ≠ p → IsComplete t₂' q := by
      intro q hq hqp
      rw [R.same.nodes] at hq
      have hc := F₁.others q hq hqp
      have heq := R.others q hqp
      exact ⟨by rw [heq]; exact hc.num, fun slot hslot => by
        rw [R.same.nodes]
        exact hc.filled slot (by rwa [heq] at hslot)⟩
    have F₃ := rewired_now (R.same.isNamed F₁.named) (by rw [R.same.nodes]; exact F₁.mem) hsame
      (fun q hq => by rw [R.same.nodes]; exact F₁.ptrs_mem q hq) (by rw [R.same.nodes]; exact hp)
      (fun slot hslot => ⟨hext' slot hslot, by simp⟩) R'
    refine ⟨p, ext', F₃, by rw [R'.same.ip, R.same.ip, hip], ?_, fun v => ?_, fun u hu v => ?_⟩
    · exact (hgrown.trans R.same.grown F₁.named).trans R'.same.grown (R.same.isNamed F₁.named)
    · rw [R'.same.isName, R.same.isName, hnames]
    · rw [linksTo_congr R'.same.nodes R'.same.ip (fun q hq => by rw [R'.others q hq]) (by rwa [R.same.ip, hnowip]),
        linksTo_congr R.same.nodes R.same.ip (fun q hq => by rw [R.others q hq]) (by rwa [hnowip]), hlinks u hu]
      have hne : u ≠ ip := fun heq => hu (by rw [heq, ← hip, hnowip])
      simp [hne]
  · obtain ⟨t₂', slots, hrev', R, hslots⟩ := addReverseNeighbor_spec now (F₁.others p hp hpn).num
    obtain rfl := Option.some.inj (hrev'.symm.trans hrev)
    obtain ⟨F₂, hlinks₂⟩ := rewired_other F₁ hp hpn R hslots
    have hneighbors : (t₂'.heap now).neighbors = ptrs.map .filled ++ x :: (mid ++ ext) := by
      rw [F₂.slots]
      simp
    obtain ⟨t₃, hset', R'⟩ := setNeighbor_spec (p := p) F₂.num hneighbors
    rw [← hlen] at hset'
    obtain rfl := Option.some.inj (hset'.symm.trans hset)
    have F₃ := rewired_now F₂.named F₂.mem F₂.others F₂.ptrs_mem (by rw [R.same.nodes]; exact hp)
      (fun slot hslot => ⟨(F₂.ext_now slot hslot).1, by simp [(F₂.ext_now slot hslot).2]⟩) R'
    refine ⟨p, ext, F₃, by rw [R'.same.ip, R.same.ip, hip], ?_, fun v => ?_, fun u hu v => ?_⟩
    · exact (hgrown.trans R.same.grown F₁.named).trans R'.same.grown F₂.named
    · rw [R'.same.isName, R.same.isName, hnames]
    · rw [linksTo_congr R'.same.nodes R'.same.ip (fun q hq => by rw [R'.others q hq]) (by rwa [R.same.ip, hnowip]),
        hlinks₂ u (by rwa [hnowip]), hlinks u hu, hip, hnowip]

/-- A round fails only where the address of a new node does not fit. -/
lemma neighborRound_isSome (hjunk : ∀ a, junk.neighborNum a = 0) {x : Slot}
    (F : Filling t now ptrs (x :: mid) ext) {ip : List UInt8} (hip : ip.length < maxIpLen) :
    ∃ t', neighborRound junk now ptrs.length ip t = some t' := by
  obtain ⟨t₁, p, hnode⟩ := neighborNode_isSome junk hip t
  obtain ⟨F₁, hp, -, -, -, -⟩ := neighborNode_spec junk hjunk F hnode
  have hnum : (t₁.heap p).neighborNum = (t₁.heap p).neighbors.length := by
    by_cases hpn : p = now
    · rw [hpn]
      exact F₁.num
    · exact (F₁.others p hp hpn).num
  obtain ⟨t₂, slots, hrev, R, hslots⟩ := addReverseNeighbor_spec now hnum
  obtain ⟨post, hneighbors⟩ : ∃ post, (t₂.heap now).neighbors = ptrs.map .filled ++ x :: post := by
    by_cases hpn : p = now
    · subst hpn
      rcases hslots with ⟨rfl, -⟩ | rfl
      · exact ⟨mid ++ ext, by rw [R.neighbors, F₁.slots]; simp⟩
      · exact ⟨mid ++ ext ++ [.filled p], by rw [R.neighbors, F₁.slots]; simp⟩
    · exact ⟨mid ++ ext, by rw [R.others now (Ne.symm hpn), F₁.slots]; simp⟩
  have hnum₂ : (t₂.heap now).neighborNum = (t₂.heap now).neighbors.length := by
    by_cases hpn : p = now
    · subst hpn
      rw [R.num, R.neighbors]
    · rw [R.others now (Ne.symm hpn)]
      exact F₁.num
  obtain ⟨t₃, hset, -⟩ := setNeighbor_spec (p := p) hnum₂ hneighbors
  rw [List.length_map] at hset
  exact ⟨t₃, by simp [neighborRound, hnode, hrev, hset]⟩

/-- What the rounds for the neighbors `ips` do. -/
structure LoopEffect (t t' : Topo) (now : Nat) (ips : List (List UInt8)) : Prop where
  grown : Grown t t'
  names : ∀ v, IsName t' v ↔ IsName t v ∨ v ∈ ips
  links : ∀ u ≠ (t.heap now).ip, ∀ v, LinksTo t' u v ↔ LinksTo t u v ∨ (u ∈ ips ∧ v = (t.heap now).ip)

/-- The loop fills the array with the nodes of the tokens. -/
theorem neighborLoop_spec (hjunk : ∀ a, junk.neighborNum a = 0) {tokens : List (List UInt8)}
    (F : Filling t now ptrs mid ext) (h : neighborLoop junk now mid.length ptrs.length tokens t = some t') :
    ∃ ptrs' ext', Filling t' now ptrs' [] ext' ∧
      ptrs'.map (fun p => (t'.heap p).ip) = ptrs.map (fun p => (t.heap p).ip) ++ tokens.take mid.length ∧
      LoopEffect t t' now (tokens.take mid.length) := by
  induction mid generalizing t ptrs ext tokens with
  | nil =>
    obtain rfl := Option.some.inj h
    exact ⟨ptrs, ext, F, by simp, Grown.refl t, by simp, by simp⟩
  | cons x mid ih =>
    simp only [List.length_cons, neighborLoop, Option.bind_eq_bind, Option.bind_eq_some_iff] at h
    obtain ⟨ip, htoken, t₁, hround, h⟩ := h
    obtain ⟨rest, rfl⟩ : ∃ rest, tokens = ip :: rest := by
      cases tokens with
      | nil => cases htoken
      | cons y rest =>
        obtain rfl := Option.some.inj htoken
        exact ⟨rest, rfl⟩
    obtain ⟨p, ext₁, F₁, hp, E⟩ := neighborRound_spec junk hjunk F hround
    have hlen : ptrs.length + 1 = (ptrs ++ [p]).length := by simp
    rw [hlen, List.tail_cons] at h
    obtain ⟨ptrs', ext', F', hips, E'⟩ := ih F₁ h
    have hnow : (t₁.heap now).ip = (t.heap now).ip := E.grown.ip now (F.named.lt now F.mem)
    refine ⟨ptrs', ext', F', ?_, E.grown.trans E'.grown F₁.named, fun v => ?_, fun u hu v => ?_⟩
    · have hold : ptrs.map (fun p => (t₁.heap p).ip) = ptrs.map fun p => (t.heap p).ip :=
        List.map_congr_left fun q hq => E.grown.ip q (F.named.lt q (F.ptrs_mem q hq))
      rw [hips, List.map_append, hold]
      simp [hp]
    · rw [E'.names, E.names]
      simp [or_assoc]
    · rw [E'.links u (by rwa [hnow]), E.links u hu, hnow]
      simp only [List.length_cons, List.take_succ_cons, List.mem_cons]
      tauto

/-- The loop fails only where a token is missing or does not fit. -/
lemma neighborLoop_isSome (hjunk : ∀ a, junk.neighborNum a = 0) {tokens : List (List UInt8)}
    (F : Filling t now ptrs mid ext) (hlen : mid.length ≤ tokens.length)
    (hfit : ∀ ip ∈ tokens, ip.length < maxIpLen) :
    ∃ t', neighborLoop junk now mid.length ptrs.length tokens t = some t' := by
  induction mid generalizing t ptrs ext tokens with
  | nil => exact ⟨t, rfl⟩
  | cons x mid ih =>
    cases tokens with
    | nil => simp at hlen
    | cons ip rest =>
      obtain ⟨t₁, hround⟩ := neighborRound_isSome junk hjunk F (hfit ip (by simp))
      obtain ⟨p, ext₁, F₁, -, -⟩ := neighborRound_spec junk hjunk F hround
      obtain ⟨t', hloop⟩ := ih F₁ (by simpa using hlen) fun ip hip => hfit ip (by simp [hip])
      rw [List.length_append, List.length_singleton] at hloop
      exact ⟨t', by simp [neighborLoop, hround, hloop]⟩

/-- A full array is complete and links its node to exactly the nodes in it. -/
lemma Filling.finish (F : Filling t now ptrs [] ext) :
    IsGraph t ∧ ∀ v, LinksTo t (t.heap now).ip v ↔ v ∈ ptrs.map fun p => (t.heap p).ip := by
  have hmem : ∀ slot, slot ∈ (t.heap now).neighbors ↔ ∃ p ∈ ptrs, slot = .filled p := by
    intro slot
    rw [F.slots]
    simp only [List.append_nil, List.mem_append, List.mem_map]
    constructor
    · rintro (⟨p, hp, rfl⟩ | hslot)
      · exact ⟨p, hp, rfl⟩
      · obtain ⟨rfl, hnow⟩ := F.ext_now slot hslot
        exact ⟨now, hnow, rfl⟩
    · rintro ⟨p, hp, rfl⟩
      exact Or.inl ⟨p, hp, rfl⟩
  have hc : ∀ p ∈ t.nodes.header, IsComplete t p := by
    intro p hp
    by_cases hpn : p = now
    · subst hpn
      refine ⟨F.num, fun slot hslot => ?_⟩
      obtain ⟨q, hq, rfl⟩ := (hmem slot).mp hslot
      exact ⟨q, F.ptrs_mem q hq, rfl⟩
    · exact F.others p hp hpn
  refine ⟨⟨F.named.ips, fun p hp => (hc p hp).num, fun p hp => (hc p hp).filled⟩, fun v => ?_⟩
  constructor
  · rintro ⟨p, hp, q, -, hpu, hqv, hadj⟩
    obtain rfl := isNamed_eq_of_ip F.named hp F.mem hpu
    obtain ⟨q', hq', hslot⟩ := (hmem _).mp hadj
    cases hslot
    exact List.mem_map.mpr ⟨q, hq', hqv⟩
  · intro hv
    obtain ⟨q, hq, rfl⟩ := List.mem_map.mp hv
    exact ⟨now, F.mem, q, F.ptrs_mem q hq, rfl, rfl, (hmem _).mpr ⟨q, hq, rfl⟩⟩

end Round

end VideoCDN.Nameserver
