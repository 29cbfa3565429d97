import VideoCDN.Lib.Records
import VideoCDN.Nameserver.LinkSemantics

/-!
# The installed announcements

`parse_LSA_file` installs the neighbors of a line when its number is above the one known of its sender. Whatever
`malloc` returns, the numbers known are the greatest ones read so far, so the installed lines are the records.
-/

namespace VideoCDN.Nameserver

open CString LinkState Records

variable (junk : Junk) {t t' : Topo}

/-- Whether the neighbors of a line are installed: the comparison in the loop of `parse_LSA_file`. -/
def installs (nodeIp : List UInt8) (seqNum : Int) (t : Topo) : Option Bool := do
  let (t, nodes, now) ← addNodeByIpWithNum junk t nodeIp t.nodes
  let t := { t with nodes := nodes }
  let t ← addClient junk t nodeIp
  return decide (seqNum > (t.heap now).seqNum)

lemma installs_eq (nodeIp : List UInt8) (seqNum : Int) (t : Topo) :
    installs junk nodeIp seqNum t = (neighborNode junk t nodeIp).bind fun node =>
      (addClient junk node.1 nodeIp).map fun t => decide (seqNum > (t.heap node.2).seqNum) := by
  rw [neighborNode_eq]
  unfold installs
  cases addNodeByIpWithNum junk t nodeIp t.nodes with
  | none => rfl
  | some r =>
    simp only [Option.bind_eq_bind, Option.bind_some, Option.map_eq_bind]
    rfl

/-- The senders of the lines that `parse_LSA_file` goes through, marked where the neighbors are installed. -/
def installLog : List (List UInt8) → Topo → Option (List (List UInt8 × Bool))
  | [], _ => some []
  | line :: lines, t => do
    match ← sscanfLine line with
    | none => return []
    | some (nodeIp, seqNum, neighbors) =>
      let installed ← installs junk nodeIp seqNum t
      let t ← updateNode junk nodeIp seqNum neighbors t
      let log ← installLog lines t
      return (nodeIp, installed) :: log

/-! ## What the steps keep -/

lemma neighborNode_grown (hn : IsNamed t) {ip : List UInt8} {p : Nat} (h : neighborNode junk t ip = some (t', p)) :
    IsNamed t' ∧ Grown t t' ∧ p ∈ t'.nodes.header ∧ (t'.heap p).ip = ip := by
  rcases neighborNode_cases junk h with ⟨rfl, hp, hip⟩ | ⟨hip, rfl, rfl⟩
  · exact ⟨hn, Grown.refl _, hp, hip⟩
  · refine ⟨isNamed_addNode junk hn hip, grown_addNode junk ip, (mem_addNode junk ip _).mpr (Or.inl rfl), ?_⟩
    rw [addNode_heap_next]
    rfl

/-- Writing other neighbors to a node keeps the nodes. -/
lemma sameNodes_update (n : Nat) (slots : List Slot) (num : Int) (arrays : Nat) :
    SameNodes t { t with
      heap := Function.update t.heap n { t.heap n with neighbors := slots, neighborNum := num }, arrays := arrays } := by
  refine ⟨rfl, fun p => ?_, fun p => ?_, rfl, rfl, rfl⟩
  · by_cases hp : p = n <;> simp [hp]
  · by_cases hp : p = n <;> simp [hp]

/-- The reverse link is there, or a new array ends with it. -/
lemma addReverseNeighbor_cases {n neighbor : Nat} (h : addReverseNeighbor t n neighbor = some t') :
    t' = t ∨ ∃ slots, slots <+: (t.heap n).neighbors ∧ (t.heap n).neighborNum = slots.length ∧
      t' = { t with
        heap := Function.update t.heap n { t.heap n with
          neighbors := slots ++ [.filled neighbor], neighborNum := (t.heap n).neighborNum + 1 }
        arrays := t.arrays + 1 } := by
  unfold addReverseNeighbor at h
  dsimp only at h
  split at h
  · exact Or.inl (Option.some.inj h).symm
  · split at h
    · cases h
    · rename_i hnum
      exact Or.inr ⟨_, List.take_prefix _ _, not_not.mp hnum, (Option.some.inj h).symm⟩

lemma addReverseNeighbor_sameNodes {n neighbor : Nat} (h : addReverseNeighbor t n neighbor = some t') :
    SameNodes t t' := by
  rcases addReverseNeighbor_cases h with rfl | ⟨slots, -, -, rfl⟩
  · exact ⟨rfl, fun _ => rfl, fun _ => rfl, rfl, rfl, rfl⟩
  · exact sameNodes_update n _ _ _

lemma setNeighbor_cases {n i neighbor : Nat} (h : setNeighbor t n i neighbor = some t') :
    t' = { t with heap := Function.update t.heap n { t.heap n with
      neighbors := (t.heap n).neighbors.set i (.filled neighbor) } } := by
  obtain ⟨slots, hstore, h⟩ := Option.bind_eq_some_iff.mp h
  obtain rfl := Option.some.inj h
  unfold Buffer.store at hstore
  split at hstore
  · obtain rfl := Option.some.inj hstore
    rfl
  · cases hstore

lemma setNeighbor_sameNodes {n i neighbor : Nat} (h : setNeighbor t n i neighbor = some t') : SameNodes t t' := by
  rw [setNeighbor_cases h]
  exact sameNodes_update n _ (t.heap n).neighborNum t.arrays

lemma neighborRound_grown (hn : IsNamed t) {now i : Nat} {neighbor : List UInt8}
    (h : neighborRound junk now i neighbor t = some t') : IsNamed t' ∧ Grown t t' := by
  simp only [neighborRound, Option.bind_eq_bind, Option.bind_eq_some_iff] at h
  obtain ⟨⟨t₁, p⟩, hnode, t₂, hreverse, hset⟩ := h
  obtain ⟨hn₁, hg₁, -, -⟩ := neighborNode_grown junk hn hnode
  have hs₂ := addReverseNeighbor_sameNodes hreverse
  have hs₃ := setNeighbor_sameNodes hset
  have hn₂ := hs₂.isNamed hn₁
  exact ⟨hs₃.isNamed hn₂, (hg₁.trans hs₂.grown hn₁).trans hs₃.grown hn₂⟩

lemma neighborLoop_grown (hn : IsNamed t) {now rounds i : Nat} {tokens : List (List UInt8)}
    (h : neighborLoop junk now rounds i tokens t = some t') : IsNamed t' ∧ Grown t t' := by
  induction rounds generalizing i tokens t with
  | zero =>
    obtain rfl := Option.some.inj h
    exact ⟨hn, Grown.refl _⟩
  | succ rounds ih =>
    simp only [neighborLoop, Option.bind_eq_bind, Option.bind_eq_some_iff] at h
    obtain ⟨neighbor, -, t₁, hround, h⟩ := h
    obtain ⟨hn₁, hg₁⟩ := neighborRound_grown junk hn hround
    obtain ⟨hn₂, hg₂⟩ := ih hn₁ h
    exact ⟨hn₂, hg₁.trans hg₂ hn₁⟩

/-! ## The numbers -/

/-- The numbers known of the senders, `-1` without one. -/
structure Knows (t : Topo) (best : List UInt8 → Option Nat) : Prop where
  named : IsNamed t
  seq : ∀ p ∈ t.nodes.header, (t.heap p).seqNum = (best (t.heap p).ip).elim (-1) fun n => (n : Int)
  silent : ∀ u, ¬IsName t u → best u = none

variable {best : List UInt8 → Option Nat}

lemma Knows.grown (h : Knows t best) (hg : Grown t t') (hn : IsNamed t') : Knows t' best := by
  obtain ⟨new, hnodes, hnew⟩ := hg.nodes
  have hheader : t'.nodes.header = new ++ t.nodes.header := by rw [hnodes]
  have hname : ∀ u, IsName t u → IsName t' u := by
    rintro u ⟨p, hp, rfl⟩
    exact ⟨p, by rw [hheader]; exact List.mem_append_right _ hp, hg.ip p (h.named.lt p hp)⟩
  refine ⟨hn, fun p hp => ?_, fun u hu => h.silent u fun hu' => hu (hname u hu')⟩
  have hp' := hp
  rw [hheader] at hp'
  rcases List.mem_append.mp hp' with hp' | hp'
  · -- a new node has a new name
    have hsilent : best (t'.heap p).ip = none := by
      apply h.silent
      rintro ⟨q, hq, hqip⟩
      have hqlt := h.named.lt q hq
      have heq := isNamed_eq_of_ip hn (by rw [hheader]; exact List.mem_append_right _ hq) hp
        ((hg.ip q hqlt).trans hqip)
      have hge := (hnew p hp').1
      omega
    rw [(hnew p hp').2, hsilent]
    rfl
  · have hlt := h.named.lt p hp'
    rw [hg.seqNum p hlt, hg.ip p hlt, h.seq p hp']

lemma SameGraph.knows (hs : SameGraph t t') (h : Knows t best) : Knows t' best := by
  have hheap : ∀ p ∈ t.nodes.header, t'.heap p = t.heap p := fun p hp => hs.heap p (h.named.lt p hp)
  refine ⟨⟨?_, fun p hp => ?_⟩, fun p hp => ?_, fun u hu => h.silent u fun hu' => hu ((hs.isName h.named u).mpr hu')⟩
  · rw [hs.nodes, List.map_congr_left fun p hp => by rw [hheap p hp]]
    exact h.named.ips
  · rw [hs.nodes] at hp
    exact (h.named.lt p hp).trans_le hs.next
  · rw [hs.nodes] at hp
    rw [hheap p hp]
    exact h.seq p hp

/-- The number of a line becomes the one known of its sender. -/
lemma Knows.startUpdate (h : Knows t best) {now : Nat} (hnow : now ∈ t.nodes.header) (seq n : Nat) :
    Knows (startUpdate junk t now seq n) (Function.update best (t.heap now).ip (some seq)) := by
  have hip := startUpdate_ip junk t now seq n
  refine ⟨isNamed_startUpdate junk h.named now seq n, fun p hp => ?_, fun u hu => ?_⟩
  · rw [hip]
    by_cases hpn : p = now
    · subst hpn
      rw [startUpdate_self, Function.update_self]
      rfl
    · have hne : (t.heap p).ip ≠ (t.heap now).ip := fun heq => hpn (isNamed_eq_of_ip h.named hp hnow heq)
      rw [Function.update_of_ne hne, ← h.seq p hp, startUpdate_of_ne junk t hpn]
  · have hold : ¬IsName t u := by
      rintro ⟨p, hp, hpu⟩
      exact hu ⟨p, hp, (hip p).trans hpu⟩
    have hne : u ≠ (t.heap now).ip := fun heq => hold ⟨now, hnow, heq.symm⟩
    rw [Function.update_of_ne hne, h.silent u hold]

/-- The number that a line is compared with is the one known of its sender. -/
lemma Knows.sender (h : Knows t best) {ip : List UInt8} {t₁ t₂ : Topo} {now : Nat}
    (hnode : neighborNode junk t ip = some (t₁, now)) (hclient : addClient junk t₁ ip = some t₂) :
    Knows t₂ best ∧ now ∈ t₂.nodes.header ∧ (t₂.heap now).ip = ip ∧
      (t₂.heap now).seqNum = (best ip).elim (-1) fun n => (n : Int) := by
  obtain ⟨hn₁, hg₁, hnow, hip⟩ := neighborNode_grown junk h.named hnode
  have hsame := addClient_sameGraph junk hclient
  have hknows := hsame.knows (h.grown hg₁ hn₁)
  have hnow₂ : now ∈ t₂.nodes.header := by rwa [hsame.nodes]
  have hip₂ : (t₂.heap now).ip = ip := by
    rw [hsame.heap now (hn₁.lt now hnow), hip]
  have hseq := hknows.seq now hnow₂
  rw [hip₂] at hseq
  exact ⟨hknows, hnow₂, hip₂, hseq⟩

/-- A line is installed when its number is above all those known of its sender. -/
lemma Knows.updateNode (h : Knows t best) {ip neighbors : List UInt8} {seq : Nat}
    (hupdate : updateNode junk ip seq neighbors t = some t') :
    installs junk ip seq t = some (decide (∀ r ∈ best ip, r < seq)) ∧
      Knows t' (if ∀ r ∈ best ip, r < seq then Function.update best ip (some seq) else best) := by
  obtain ⟨t₁, now, t₂, hnode, hclient, hcases⟩ := updateNode_cases junk hupdate
  obtain ⟨hknows, hnow, hip, hseq⟩ := h.sender junk hnode hclient
  have hiff : (seq : Int) > (t₂.heap now).seqNum ↔ ∀ r ∈ best ip, r < seq := by
    rw [hseq]
    cases best ip with
    | none =>
      simp only [Option.elim_none, Option.not_mem_none, false_implies, implies_true, iff_true]
      omega
    | some r => simp
  constructor
  · rw [installs_eq, hnode, Option.bind_some, hclient, Option.map_some]
    simp only [hiff]
  · rcases hcases with ⟨hlt, hloop⟩ | ⟨hle, rfl⟩
    · rw [if_pos (hiff.mp hlt)]
      have hstart := hknows.startUpdate junk hnow seq (countCharNum neighbors 44 + 1)
      rw [hip] at hstart
      obtain ⟨hn₃, hg₃⟩ := neighborLoop_grown junk hstart.named hloop
      exact hstart.grown hg₃ hn₃
    · rw [if_neg fun hnew => hle (hiff.mpr hnew)]
      exact hknows

/-! ## Files -/

lemma knows_init : Knows init fun _ => none :=
  ⟨⟨by simp [init], by simp [init]⟩, by simp [init], fun _ _ => rfl⟩

lemma parseServerFile_knows {file : Option (List UInt8)} {ret : Int}
    (h : parseServerFile junk file init = some (ret, t)) : Knows t fun _ => none := by
  apply parseServerFile_induct junk _ _ knows_init h
  · intro t t' ip p ht hnode
    obtain ⟨hn, hg, -, -⟩ := neighborNode_grown junk ht.named hnode
    exact ht.grown hg hn
  · exact fun t t' ht hsame => hsame.knows ht

/-- In a file that is parsed, the installed lines are the records of the numbers. -/
theorem installLog_eq {lines : List LsaLine} {file : List UInt8} (hfile : IsLsaFile lines file) (h : Knows t best)
    (hparse : parseLsaLines junk (fgetsLines [] file) t = some (0, t')) :
    installLog junk (fgetsLines [] file) t = some (records LsaLine.sender LsaLine.seq best lines) := by
  induction lines generalizing file t best with
  | nil =>
    rw [hfile.nil_eq]
    rfl
  | cons l lines ih =>
    obtain ⟨piece, rest, hpieces, hrest, hsscanf, -⟩ := parseLsaLines_first l junk hfile hparse
    rw [hpieces, parseLsaLines_fields junk hsscanf] at hparse
    obtain ⟨t₁, hupdate, hparse⟩ := Option.bind_eq_some_iff.mp hparse
    obtain ⟨hinstalls, hknows⟩ := h.updateNode junk hupdate
    have hlog := ih hrest hknows hparse
    rw [hpieces, installLog, hsscanf]
    simp only [Option.bind_eq_bind, Option.bind_some, hinstalls, hupdate, hlog, Option.pure_def, records]
    by_cases hnew : ∀ r ∈ best l.sender, r < l.seq
    · simp only [if_pos hnew, decide_eq_true hnew]
    · simp only [if_neg hnew, decide_eq_false hnew]

end VideoCDN.Nameserver
