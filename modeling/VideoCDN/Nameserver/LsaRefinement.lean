import VideoCDN.Nameserver.LsaUpdate

/-!
# Lines refine announcements

Parsing a line installs its announcement in the link state that the nodes represent.
-/

namespace VideoCDN.Nameserver

open CString LinkState

/-- The nodes represent a link state. -/
structure Refines (t : Topo) (s : LinkState.State (List UInt8)) : Prop where
  graph : IsGraph t
  lt : ∀ p ∈ t.nodes.header, p < t.next
  links : ∀ u v, LinksTo t u v ↔ s.links u v
  seq : ∀ p ∈ t.nodes.header, (t.heap p).seqNum = s.seq (t.heap p).ip
  silent : ∀ u, ¬IsName t u → s.seq u = -1

variable {t t' : Topo} {s : LinkState.State (List UInt8)} (junk : Junk)

lemma Refines.named (R : Refines t s) : IsNamed t := ⟨R.graph.ips, R.lt⟩

lemma Refines.complete (R : Refines t s) {p : Nat} (hp : p ∈ t.nodes.header) : IsComplete t p :=
  ⟨R.graph.num p hp, R.graph.filled p hp⟩

lemma neighborNode_refines (hjunk : ∀ a, junk.neighborNum a = 0) (R : Refines t s) {ip : List UInt8} {p : Nat}
    (h : neighborNode junk t ip = some (t', p)) :
    Refines t' s ∧ p ∈ t'.nodes.header ∧ (t'.heap p).ip = ip ∧ Grown t t' ∧
      ∀ v, IsName t' v ↔ IsName t v ∨ v = ip := by
  rcases neighborNode_cases junk h with ⟨rfl, hp, hip⟩ | ⟨hip, rfl, rfl⟩
  · refine ⟨R, hp, hip, Grown.refl _, fun v => ⟨Or.inl, ?_⟩⟩
    rintro (hv | rfl)
    · exact hv
    · exact ⟨p, hp, hip⟩
  · have hnamed := isNamed_addNode junk R.named hip
    have hnames := isName_addNode junk R.named ip
    have hcomplete : ∀ p ∈ (addNode junk t ip).nodes.header, IsComplete (addNode junk t ip) p := by
      intro p hp
      rcases (mem_addNode junk ip p).mp hp with rfl | hp
      · exact isComplete_addNode_next junk hjunk ip
      · exact isComplete_addNode_old junk R.named ip hp (R.complete hp)
    refine ⟨⟨⟨hnamed.ips, fun p hp => (hcomplete p hp).num, fun p hp => (hcomplete p hp).filled⟩, hnamed.lt,
      fun u v => ?_, fun p hp => ?_, fun u hu => ?_⟩, (mem_addNode junk ip _).mpr (Or.inl rfl), ?_,
      grown_addNode junk ip, hnames⟩
    · rw [linksTo_addNode junk R.named ip fun p hp _ => R.complete hp]
      exact R.links u v
    · rcases (mem_addNode junk ip p).mp hp with rfl | hp
      · rw [addNode_heap_next]
        exact (R.silent ip hip).symm
      · rw [addNode_heap_of_lt junk ip (R.lt p hp)]
        exact R.seq p hp
    · exact R.silent u fun hu' => hu ((hnames u).mpr (Or.inl hu'))
    · rw [addNode_heap_next]
      rfl

/-- Nothing but the other lists and fresh memory changed. -/
structure SameGraph (t t' : Topo) : Prop where
  next : t.next ≤ t'.next
  heap : ∀ p < t.next, t'.heap p = t.heap p
  nodes : t'.nodes = t.nodes

lemma addClient_sameGraph {ip : List UInt8} (h : addClient junk t ip = some t') : SameGraph t t' := by
  unfold addClient at h
  split at h
  · simp only [Option.bind_eq_bind, Option.bind_eq_some_iff, Option.pure_def] at h
    obtain ⟨⟨t₁, clients, p⟩, hadd, h⟩ := h
    obtain rfl := Option.some.inj h
    rcases addNodeByIpWithNum_cases junk hadd with ⟨-, -, rfl, -⟩ | ⟨-, rfl, -, -⟩
    · exact ⟨le_rfl, fun _ _ => rfl, rfl⟩
    · exact ⟨Nat.le_succ _, fun p hp => Function.update_of_ne hp.ne _ _, rfl⟩
  · obtain rfl := Option.some.inj h
    exact ⟨le_rfl, fun _ _ => rfl, rfl⟩

lemma SameGraph.isName (h : SameGraph t t') (hn : IsNamed t) (v : List UInt8) : IsName t' v ↔ IsName t v := by
  simp only [IsName, h.nodes]
  exact exists_congr fun p => and_congr_right fun hp => by rw [h.heap p (hn.lt p hp)]

lemma SameGraph.refines (h : SameGraph t t') (R : Refines t s) : Refines t' s := by
  have hheap : ∀ p ∈ t.nodes.header, t'.heap p = t.heap p := fun p hp => h.heap p (R.lt p hp)
  refine ⟨⟨?_, fun p hp => ?_, fun p hp slot hslot => ?_⟩, fun p hp => ?_, fun u v => ?_, fun p hp => ?_,
    fun u hu => R.silent u fun hu' => hu ((h.isName R.named u).mpr hu')⟩
  · rw [h.nodes, List.map_congr_left fun p hp => by rw [hheap p hp]]
    exact R.graph.ips
  · rw [h.nodes] at hp
    rw [hheap p hp]
    exact R.graph.num p hp
  · rw [h.nodes] at hp ⊢
    rw [hheap p hp] at hslot
    exact R.graph.filled p hp slot hslot
  · rw [h.nodes] at hp
    exact (R.lt p hp).trans_le h.next
  · rw [← R.links u v]
    simp only [LinksTo, h.nodes, Adj]
    refine exists_congr fun p => and_congr_right fun hp => exists_congr fun q => and_congr_right fun hq => ?_
    rw [hheap p hp, hheap q hq]
  · rw [h.nodes] at hp
    rw [hheap p hp]
    exact R.seq p hp

/-- The sender with a new array of `n` slots and a new number. -/
def startUpdate (t : Topo) (now : Nat) (seqNum : Int) (n : Nat) : Topo :=
  { t with
    heap := Function.update t.heap now { t.heap now with
      seqNum := seqNum, neighbors := mallocNeighbors junk t n, neighborNum := n }
    arrays := t.arrays + 1 }

/-- The fields of a line, in terms of the functions above. -/
lemma updateNode_eq (ip : List UInt8) (seqNum : Int) (neighbors : List UInt8) (t : Topo) :
    updateNode junk ip seqNum neighbors t =
      (neighborNode junk t ip).bind fun node => (addClient junk node.1 ip).bind fun t =>
        if seqNum > (t.heap node.2).seqNum then
          neighborLoop junk node.2 (countCharNum neighbors 44 + 1) 0 (strtok neighbors)
            (startUpdate junk t node.2 seqNum (countCharNum neighbors 44 + 1))
        else some t := by
  rw [neighborNode_eq]
  unfold updateNode
  cases addNodeByIpWithNum junk t ip t.nodes <;> rfl

/-- A line that is taken in: the node of its sender, perhaps a client, and the neighbors where its number is new. -/
lemma updateNode_cases {ip neighbors : List UInt8} {seqNum : Int}
    (h : updateNode junk ip seqNum neighbors t = some t') :
    ∃ t₁ now t₂, neighborNode junk t ip = some (t₁, now) ∧ addClient junk t₁ ip = some t₂ ∧
      (seqNum > (t₂.heap now).seqNum ∧ neighborLoop junk now (countCharNum neighbors 44 + 1) 0 (strtok neighbors)
        (startUpdate junk t₂ now seqNum (countCharNum neighbors 44 + 1)) = some t' ∨
      ¬seqNum > (t₂.heap now).seqNum ∧ t' = t₂) := by
  rw [updateNode_eq] at h
  simp only [Option.bind_eq_some_iff] at h
  obtain ⟨⟨t₁, now⟩, hnode, t₂, hclient, h⟩ := h
  refine ⟨t₁, now, t₂, hnode, hclient, ?_⟩
  by_cases hnew : seqNum > (t₂.heap now).seqNum
  · rw [if_pos hnew] at h
    exact Or.inl ⟨hnew, h⟩
  · rw [if_neg hnew] at h
    exact Or.inr ⟨hnew, (Option.some.inj h).symm⟩

lemma startUpdate_ip (t : Topo) (now : Nat) (seqNum : Int) (n p : Nat) :
    ((startUpdate junk t now seqNum n).heap p).ip = (t.heap p).ip := by
  by_cases hp : p = now <;> simp [startUpdate, hp]

lemma startUpdate_of_ne (t : Topo) {now p : Nat} (hp : p ≠ now) (seqNum : Int) (n : Nat) :
    (startUpdate junk t now seqNum n).heap p = t.heap p := Function.update_of_ne hp _ _

lemma startUpdate_self (t : Topo) (now : Nat) (seqNum : Int) (n : Nat) :
    (startUpdate junk t now seqNum n).heap now = { t.heap now with
      seqNum := seqNum, neighbors := mallocNeighbors junk t n, neighborNum := n } := Function.update_self _ _ _

lemma mallocNeighbors_length (n : Nat) : (mallocNeighbors junk t n).length = n := by
  simp [mallocNeighbors]

lemma isNamed_startUpdate (hn : IsNamed t) (now : Nat) (seqNum : Int) (n : Nat) :
    IsNamed (startUpdate junk t now seqNum n) := by
  constructor
  · change (t.nodes.header.map _).Nodup
    simpa only [startUpdate_ip] using hn.ips
  · exact hn.lt

lemma startUpdate_filling (R : Refines t s) {now : Nat} (hnow : now ∈ t.nodes.header) (seqNum : Int) (n : Nat) :
    Filling (startUpdate junk t now seqNum n) now [] (mallocNeighbors junk t n) [] := by
  refine ⟨isNamed_startUpdate junk R.named now seqNum n, hnow, fun p hp hne => ?_, ?_, ?_, by simp, by simp⟩
  · have heq := startUpdate_of_ne junk t hne seqNum n
    exact ⟨by rw [heq]; exact R.graph.num p hp, by rw [heq]; exact R.graph.filled p hp⟩
  · rw [startUpdate_self]
    exact congrArg Int.ofNat (mallocNeighbors_length junk n).symm
  · rw [startUpdate_self]
    simp

/-- The loop installs the announcement of its sender. -/
lemma neighborLoop_refines (hjunk : ∀ a, junk.neighborNum a = 0) (R : Refines t s) {now : Nat}
    (hnow : now ∈ t.nodes.header) {l : Lsa (List UInt8)} (hip : (t.heap now).ip = l.sender)
    (hseq : s.seq l.sender < l.seq)
    (h : neighborLoop junk now l.neighbors.length 0 l.neighbors
      (startUpdate junk t now l.seq l.neighbors.length) = some t') :
    Refines t' (s.install l) ∧ Grown (startUpdate junk t now l.seq l.neighbors.length) t' := by
  have F := startUpdate_filling junk R hnow l.seq l.neighbors.length
  have hlen := mallocNeighbors_length (t := t) junk l.neighbors.length
  have hheap := startUpdate_ip junk t now l.seq l.neighbors.length
  have hother : ∀ p ≠ now, (startUpdate junk t now l.seq l.neighbors.length).heap p = t.heap p :=
    fun p hp => startUpdate_of_ne junk t hp l.seq l.neighbors.length
  obtain ⟨ptrs, ext, F', hips, E⟩ := neighborLoop_spec junk hjunk F (by rwa [hlen])
  rw [hlen, List.take_length] at hips E
  have hnow' : (t'.heap now).ip = l.sender := by
    rw [E.grown.ip now (F.named.lt now F.mem), hheap, hip]
  obtain ⟨hgraph, hlinks⟩ := F'.finish
  rw [hnow', hips] at hlinks
  refine ⟨⟨hgraph, F'.named.lt, fun u v => ?_, fun p hp => ?_, fun u hu => ?_⟩, E.grown⟩
  · rw [LinkState.State.install, if_pos hseq]
    by_cases hu : u = l.sender
    · simpa [hu] using hlinks v
    · have hne : u ≠ (t.heap now).ip := by rwa [hip]
      have hnodes : (startUpdate junk t now l.seq l.neighbors.length).nodes = t.nodes := rfl
      have hstart := linksTo_congr hnodes hheap (fun p hp => by rw [hother p hp]) hne v
      rw [E.links u (by rwa [hheap, hip]), hstart]
      simp [hu, R.links u v, hheap, hip]
  · rw [LinkState.State.install, if_pos hseq]
    obtain ⟨new, hnodes, hnew⟩ := E.grown.nodes
    have hp' := hp
    rw [hnodes] at hp'
    rcases List.mem_append.mp hp' with hp' | hp'
    · -- a node added by the loop has a new name
      have hname : ¬IsName t (t'.heap p).ip := by
        rintro ⟨q, hq, hqp⟩
        have hqlt := R.lt q hq
        have hqip : (t'.heap q).ip = (t'.heap p).ip := by
          rw [E.grown.ip q hqlt, hheap, hqp]
        have hq' : q ∈ t'.nodes.header := by
          rw [hnodes]
          exact List.mem_append_right _ hq
        have hge : t.next ≤ p := (hnew p hp').1
        rw [isNamed_eq_of_ip F'.named hq' hp hqip] at hqlt
        omega
      have hne : (t'.heap p).ip ≠ l.sender := fun heq => hname (heq ▸ ⟨now, hnow, hip⟩)
      rw [(hnew p hp').2]
      simp [hne, R.silent _ hname]
    · have hplt := R.lt p hp'
      rw [E.grown.seqNum p hplt, E.grown.ip p hplt, hheap]
      by_cases hpn : p = now
      · subst hpn
        simp [startUpdate_self, hip]
      · have hne : (t.heap p).ip ≠ l.sender := fun heq =>
          hpn (isNamed_eq_of_ip R.named hp' hnow (heq.trans hip.symm))
        rw [hother p hpn, R.seq p hp']
        simp [hne]
  · rw [LinkState.State.install, if_pos hseq]
    have hold : ¬IsName t u := by
      rintro ⟨p, hp, hpu⟩
      exact hu ((E.names u).mpr (Or.inl ⟨p, hp, by rw [hheap, hpu]⟩))
    have hne : u ≠ l.sender := fun heq => hold (heq ▸ ⟨now, hnow, hip⟩)
    simp [hne, R.silent u hold]

/-- A line for the announcement `l` takes the represented state to the one with `l` installed. -/
theorem updateNode_refines (hjunk : ∀ a, junk.neighborNum a = 0) (R : Refines t s) {l : Lsa (List UInt8)}
    {neighbors : List UInt8} (htokens : strtok neighbors = l.neighbors)
    (hcount : countCharNum neighbors 44 + 1 = l.neighbors.length)
    (h : updateNode junk l.sender l.seq neighbors t = some t') : Refines t' (s.install l) := by
  obtain ⟨t₁, now, t₂, hnode, hclient, h⟩ := updateNode_cases junk h
  rw [htokens, hcount] at h
  obtain ⟨R₁, hnow, hip, -, -⟩ := neighborNode_refines junk hjunk R hnode
  have hsame := addClient_sameGraph junk hclient
  have R₂ := hsame.refines R₁
  have hheap := hsame.heap now (R₁.lt now hnow)
  have hnow₂ : now ∈ t₂.nodes.header := by rwa [hsame.nodes]
  have hseq : (t₂.heap now).seqNum = s.seq l.sender := by
    rw [R₂.seq now hnow₂, hheap, hip]
  rw [hseq] at h
  rcases h with ⟨hlt, hloop⟩ | ⟨hle, rfl⟩
  · exact (neighborLoop_refines junk hjunk R₂ hnow₂ (by rw [hheap, hip]) hlt hloop).1
  · rw [LinkState.State.install, if_neg hle]
    exact R₂

end VideoCDN.Nameserver
