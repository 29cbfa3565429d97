import VideoCDN.Nameserver.Startup

/-!
# Slots and tokens

`parse_LSA_file` allocates one slot more than the neighbors field has commas, and fills the slots with the tokens of
`strtok`, which skips empty items. The two numbers agree where no item is empty.
-/

namespace VideoCDN.Nameserver

open CString LinkState

/-! ## Tokens -/

lemma length_splitOn (c : UInt8) (s : List UInt8) : (s.splitOn c).length = s.count c + 1 := by
  rw [List.splitOn_eq_splitOnP]
  induction s with
  | nil => rfl
  | cons b s ih =>
    rw [List.splitOnP_cons_eq_if_modifyHead]
    by_cases hb : b = c
    · subst hb
      simp [ih]
    · simp [hb, ih]

/-- There are as many tokens as slots exactly when no item is empty. -/
lemma length_strtok_iff (s : List UInt8) : (strtok s).length = countCharNum s 44 + 1 ↔ [] ∉ s.splitOn 44 := by
  rw [countCharNum, ← length_splitOn, strtok, List.length_filter_eq_length_iff]
  constructor
  · intro h hmem
    simpa using h [] hmem
  · intro h item hitem
    simp only [decide_eq_true_eq]
    rintro rfl
    exact h hitem

lemma length_strtok_le (s : List UInt8) : (strtok s).length ≤ countCharNum s 44 + 1 := by
  rw [countCharNum, ← length_splitOn]
  exact List.length_filter_le _ _

/-! ## What a line does -/

variable (junk : Junk)

/-- The nodes with the array that is allocated for a line, and its sender, where the line has a new number. -/
def allocated (nodeIp : List UInt8) (seqNum : Int) (neighbors : List UInt8) (t : Topo) : Option (Topo × Nat) := do
  let (t, now) ← neighborNode junk t nodeIp
  let t ← addClient junk t nodeIp
  if seqNum > (t.heap now).seqNum then return (startUpdate junk t now seqNum (countCharNum neighbors 44 + 1), now)
  else none

/-- Whether a round of the neighbor loop looks for the null pointer that `strtok` has returned. -/
def passesNull (now : Nat) : Nat → Nat → List (List UInt8) → Topo → Bool
  | 0, _, _, _ => false
  | _ + 1, _, [], _ => true
  | rounds + 1, i, neighbor :: tokens, t =>
    match neighborRound junk now i neighbor t with
    | none => false
    | some t => passesNull now rounds (i + 1) tokens t

/-- No array has an unfilled slot. -/
def AllFilled (t : Topo) : Prop := ∀ p, ∀ slot ∈ (t.heap p).neighbors, ∃ q, slot = .filled q

/-- The neighbors of a line are as many as the slots allocated for them, no null pointer is compared, and no slot is
left unfilled. -/
structure SafeLine (t : Topo) (nodeIp : List UInt8) (seqNum : Int) (neighbors : List UInt8) : Prop where
  count : ∀ t₁ now, allocated junk nodeIp seqNum neighbors t = some (t₁, now) →
    (strtok neighbors).length = ((t₁.heap now).neighbors).length
  null : ∀ t₁ now, allocated junk nodeIp seqNum neighbors t = some (t₁, now) →
    passesNull junk now (countCharNum neighbors 44 + 1) 0 (strtok neighbors) t₁ = false
  filled : ∀ t', updateNode junk nodeIp seqNum neighbors t = some t' → AllFilled t'

/-- The nodes before each line with three fields that the loop of `parse_LSA_file` gets to, and its fields. -/
def visits : List (List UInt8) → Topo → List (Topo × List UInt8 × Int × List UInt8)
  | [], _ => []
  | line :: lines, t =>
    match sscanfLine line with
    | some (some (nodeIp, seqNum, neighbors)) =>
      (t, nodeIp, seqNum, neighbors) :: match updateNode junk nodeIp seqNum neighbors t with
        | none => []
        | some t => visits lines t
    | _ => []

/-- The file is refused, or every line that the loop gets to is safe. -/
def ParsesSafely (file : List UInt8) (t : Topo) : Prop :=
  (∃ t', parseLsaFile junk (some file) t = some (-1, t')) ∨
    ∀ t₁ nodeIp seqNum neighbors, (t₁, nodeIp, seqNum, neighbors) ∈ visits junk (fgetsLines [] file) t →
      SafeLine junk t₁ nodeIp seqNum neighbors

/-! ## Filled slots -/

/-- In the array of `now`, of at least `n` slots, those from `i` up to `n` may be unfilled. -/
structure FilledUpTo (t : Topo) (now i n : Nat) : Prop where
  lt : now < t.next
  num : (t.heap now).neighborNum = (t.heap now).neighbors.length
  length : n ≤ (t.heap now).neighbors.length
  others : ∀ p ≠ now, ∀ slot ∈ (t.heap p).neighbors, ∃ q, slot = .filled q
  slots : ∀ j slot, (t.heap now).neighbors[j]? = some slot → j < i ∨ n ≤ j → ∃ q, slot = .filled q

variable {t t' : Topo} {now i n : Nat}

lemma FilledUpTo.neighborNode (F : FilledUpTo t now i n) {ip : List UInt8} {p : Nat}
    (h : neighborNode junk t ip = some (t', p)) : FilledUpTo t' now i n := by
  rcases neighborNode_cases junk h with ⟨rfl, -, -⟩ | ⟨-, rfl, -⟩
  · exact F
  · have hnow := addNode_heap_of_lt junk ip F.lt
    refine ⟨F.lt.trans (Nat.lt_succ_self _), ?_, ?_, fun q hq => ?_, ?_⟩
    · rw [hnow]
      exact F.num
    · rw [hnow]
      exact F.length
    · by_cases hnew : q = t.next
      · subst hnew
        rw [addNode_heap_next]
        exact fun slot hslot => absurd hslot List.not_mem_nil
      · have hold : (addNode junk t ip).heap q = t.heap q := Function.update_of_ne hnew _ _
        rw [hold]
        exact F.others q hq
    · rw [hnow]
      exact F.slots

lemma FilledUpTo.addReverseNeighbor (F : FilledUpTo t now i n) {p neighbor : Nat}
    (h : addReverseNeighbor t p neighbor = some t') : FilledUpTo t' now i n := by
  rcases addReverseNeighbor_cases h with rfl | ⟨slots, hslots, hnum, ht⟩
  · exact F
  · have hnext : t'.next = t.next := by rw [ht]
    have hheap : t'.heap = Function.update t.heap p { t.heap p with
        neighbors := slots ++ [.filled neighbor], neighborNum := (t.heap p).neighborNum + 1 } := by rw [ht]
    by_cases hp : p = now
    · -- the sender lists itself: nothing is dropped from its array
      subst hp
      have hlen : slots.length = (t.heap p).neighbors.length := by
        have hall := F.num
        rw [hnum] at hall
        exact_mod_cast hall
      obtain rfl := hslots.eq_of_length hlen
      have hnow : t'.heap p = { t.heap p with
          neighbors := (t.heap p).neighbors ++ [.filled neighbor], neighborNum := (t.heap p).neighborNum + 1 } := by
        rw [hheap, Function.update_self]
      refine ⟨by rw [hnext]; exact F.lt, ?_, ?_, fun q hq => ?_, fun j slot hslot hj => ?_⟩
      · rw [hnow]
        simp [F.num]
      · rw [hnow, List.length_append]
        exact F.length.trans (Nat.le_add_right _ _)
      · rw [hheap, Function.update_of_ne hq]
        exact F.others q hq
      · rw [hnow, getElem?_append_singleton] at hslot
        rcases hslot with hslot | ⟨-, rfl⟩
        · exact F.slots j slot hslot hj
        · exact ⟨neighbor, rfl⟩
    · have hnow : t'.heap now = t.heap now := by
        rw [hheap, Function.update_of_ne (Ne.symm hp)]
      refine ⟨by rw [hnext]; exact F.lt, by rw [hnow]; exact F.num, by rw [hnow]; exact F.length,
        fun q hq slot hslot => ?_, by rw [hnow]; exact F.slots⟩
      by_cases hqp : q = p
      · subst hqp
        rw [hheap, Function.update_self] at hslot
        rcases List.mem_append.mp hslot with hslot | hslot
        · exact F.others q hq slot (hslots.subset hslot)
        · exact ⟨neighbor, List.mem_singleton.mp hslot⟩
      · rw [hheap, Function.update_of_ne hqp] at hslot
        exact F.others q hq slot hslot

lemma FilledUpTo.setNeighbor (F : FilledUpTo t now i n) {neighbor : Nat}
    (h : setNeighbor t now i neighbor = some t') : FilledUpTo t' now (i + 1) n := by
  have ht := setNeighbor_cases h
  have hnext : t'.next = t.next := by rw [ht]
  have hheap : t'.heap = Function.update t.heap now { t.heap now with
      neighbors := (t.heap now).neighbors.set i (.filled neighbor) } := by rw [ht]
  have hnow : t'.heap now = { t.heap now with neighbors := (t.heap now).neighbors.set i (.filled neighbor) } := by
    rw [hheap, Function.update_self]
  refine ⟨by rw [hnext]; exact F.lt, ?_, ?_, fun q hq => ?_, fun j slot hslot hj => ?_⟩
  · rw [hnow, List.length_set]
    exact F.num
  · rw [hnow, List.length_set]
    exact F.length
  · rw [hheap, Function.update_of_ne hq]
    exact F.others q hq
  · rw [hnow, List.getElem?_set] at hslot
    split at hslot
    · split at hslot
      · exact ⟨neighbor, (Option.some.inj hslot).symm⟩
      · cases hslot
    · apply F.slots j slot hslot
      omega

lemma FilledUpTo.neighborRound (F : FilledUpTo t now i n) {neighbor : List UInt8}
    (h : neighborRound junk now i neighbor t = some t') : FilledUpTo t' now (i + 1) n := by
  simp only [Nameserver.neighborRound, Option.bind_eq_bind, Option.bind_eq_some_iff] at h
  obtain ⟨⟨t₁, p⟩, hnode, t₂, hreverse, hset⟩ := h
  exact ((F.neighborNode junk hnode).addReverseNeighbor hreverse).setNeighbor hset

lemma FilledUpTo.neighborLoop {rounds : Nat} {tokens : List (List UInt8)} (F : FilledUpTo t now i n)
    (h : neighborLoop junk now rounds i tokens t = some t') : FilledUpTo t' now (i + rounds) n := by
  induction rounds generalizing i tokens t with
  | zero =>
    obtain rfl := Option.some.inj h
    exact F
  | succ rounds ih =>
    simp only [Nameserver.neighborLoop, Option.bind_eq_bind, Option.bind_eq_some_iff] at h
    obtain ⟨neighbor, -, t₁, hround, h⟩ := h
    have hrest := ih (F.neighborRound junk hround) h
    rwa [Nat.add_right_comm, Nat.add_assoc] at hrest

/-- Behind the last round every slot is filled. -/
lemma FilledUpTo.allFilled (F : FilledUpTo t now n n) : AllFilled t := by
  intro p slot hslot
  by_cases hp : p = now
  · subst hp
    obtain ⟨j, hj⟩ := List.getElem?_of_mem hslot
    exact F.slots j slot hj (Nat.lt_or_ge j n)
  · exact F.others p hp slot hslot

lemma AllFilled.alloc (h : AllFilled t) (ip : List UInt8) : AllFilled (alloc junk t ip) := by
  intro q
  by_cases hq : q = t.next
  · subst hq
    have hnew : (Nameserver.alloc junk t ip).heap t.next = newNode junk t ip := Function.update_self _ _ _
    rw [hnew]
    exact fun slot hslot => absurd hslot List.not_mem_nil
  · have hold : (Nameserver.alloc junk t ip).heap q = t.heap q := Function.update_of_ne hq _ _
    rw [hold]
    exact h q

lemma AllFilled.addNodeByIpWithNum (h : AllFilled t) {ip : List UInt8} {l l' : NodeList} {p : Nat}
    (hadd : addNodeByIpWithNum junk t ip l = some (t', l', p)) : AllFilled t' := by
  rcases addNodeByIpWithNum_cases junk hadd with ⟨-, -, rfl, -⟩ | ⟨-, rfl, -, -⟩
  · exact h
  · exact h.alloc junk ip

lemma AllFilled.neighborNode (h : AllFilled t) {ip : List UInt8} {p : Nat}
    (hnode : neighborNode junk t ip = some (t', p)) : AllFilled t' := by
  rcases neighborNode_cases junk hnode with ⟨rfl, -, -⟩ | ⟨-, rfl, -⟩
  · exact h
  · exact h.alloc junk ip

lemma AllFilled.addClient (h : AllFilled t) {ip : List UInt8} (hclient : addClient junk t ip = some t') :
    AllFilled t' := by
  unfold Nameserver.addClient at hclient
  split at hclient
  · obtain ⟨⟨t₁, clients, p⟩, hadd, hclient⟩ := Option.bind_eq_some_iff.mp hclient
    obtain rfl := Option.some.inj hclient
    have hfilled : AllFilled t₁ := h.addNodeByIpWithNum junk hadd
    exact hfilled
  · obtain rfl := Option.some.inj hclient
    exact h

lemma AllFilled.startUpdate (h : AllFilled t) (hnow : now < t.next) (seq : Int) (n : Nat) :
    FilledUpTo (startUpdate junk t now seq n) now 0 n := by
  have hlen : ((Nameserver.startUpdate junk t now seq n).heap now).neighbors.length = n := by
    rw [startUpdate_self]
    exact mallocNeighbors_length junk n
  refine ⟨hnow, ?_, hlen.ge, fun q hq => ?_, fun j slot hslot hj => ?_⟩
  · rw [hlen, startUpdate_self]
  · rw [startUpdate_of_ne junk t hq]
    exact h q
  · have hlt := lt_of_getElem?_eq_some hslot
    omega

/-! ## The numbers that are read -/

/-- `seq` is above `-1` and the numbers of the lines `read` with the sender `ip`. -/
def IsNew (read : List (List UInt8 × Int × List UInt8)) (ip : List UInt8) (seq : Int) : Prop :=
  0 ≤ seq ∧ ∀ s neighbors, (ip, s, neighbors) ∈ read → s < seq

/-- The numbers of the nodes are the greatest ones of the lines `read`. -/
def Heard (t : Topo) (read : List (List UInt8 × Int × List UInt8)) : Prop :=
  ∃ best, Knows t best ∧ ∀ ip seq, ((best ip).elim (-1) fun n => (n : Int)) < seq ↔ IsNew read ip seq

variable {read : List (List UInt8 × Int × List UInt8)} {ip neighbors : List UInt8} {seq : Int}

lemma isNew_concat {u : List UInt8} {x : Int} :
    IsNew (read ++ [(ip, seq, neighbors)]) u x ↔ IsNew read u x ∧ (u = ip → seq < x) := by
  constructor
  · rintro ⟨hpos, h⟩
    refine ⟨⟨hpos, fun s nb hmem => h s nb (List.mem_append_left _ hmem)⟩, ?_⟩
    rintro rfl
    exact h seq neighbors (by simp)
  · rintro ⟨⟨hpos, h⟩, hlast⟩
    refine ⟨hpos, fun s nb hmem => ?_⟩
    rcases List.mem_append.mp hmem with hmem | hmem
    · exact h s nb hmem
    · obtain ⟨rfl, rfl, rfl⟩ : u = ip ∧ s = seq ∧ nb = neighbors := by simpa using hmem
      exact hlast rfl

/-- Where no number is known, no line was read. -/
lemma Knows.heard (h : Knows t fun _ => none) : Heard t [] := by
  refine ⟨fun _ => none, h, fun ip seq => ?_⟩
  simp only [Option.elim_none, IsNew, List.not_mem_nil, false_implies, implies_true, and_true]
  omega

lemma Heard.isNew_iff (h : Heard t read) {t₁ t₂ : Topo} (hnode : neighborNode junk t ip = some (t₁, now))
    (hclient : addClient junk t₁ ip = some t₂) : seq > (t₂.heap now).seqNum ↔ IsNew read ip seq := by
  obtain ⟨best, hknows, hbest⟩ := h
  obtain ⟨-, -, -, hseq⟩ := hknows.sender junk hnode hclient
  rw [hseq, gt_iff_lt, hbest]

/-- A line that is read is heard, whether its neighbors are installed or not. -/
lemma Heard.updateNode (h : Heard t read) (hupdate : updateNode junk ip seq neighbors t = some t') :
    Heard t' (read ++ [(ip, seq, neighbors)]) := by
  obtain ⟨t₁, now, t₂, hnode, hclient, hcases⟩ := updateNode_cases junk hupdate
  obtain ⟨best, hknows, hbest⟩ := h
  obtain ⟨hknows₂, hnow, hip, hseq⟩ := hknows.sender junk hnode hclient
  rcases hcases with ⟨hnew, hloop⟩ | ⟨hold, rfl⟩
  · rw [hseq, gt_iff_lt] at hnew
    have hisNew := (hbest ip seq).mp hnew
    obtain ⟨n, rfl⟩ := Int.eq_ofNat_of_zero_le hisNew.1
    have hstart := hknows₂.startUpdate junk hnow n (countCharNum neighbors 44 + 1)
    rw [hip] at hstart
    obtain ⟨hn, hg⟩ := neighborLoop_grown junk hstart.named hloop
    refine ⟨_, hstart.grown hg hn, fun u x => ?_⟩
    rw [isNew_concat, ← hbest u x]
    by_cases hu : u = ip
    · subst hu
      simp only [Function.update_self, Option.elim_some, true_implies]
      omega
    · simp [hu]
  · rw [hseq, gt_iff_lt] at hold
    refine ⟨best, hknows₂, fun u x => ?_⟩
    rw [isNew_concat, ← hbest u x]
    constructor
    · intro hx
      refine ⟨hx, ?_⟩
      rintro rfl
      omega
    · exact fun hx => hx.1

/-! ## Safe lines -/

lemma neighborLoop_tokens {rounds : Nat} {tokens : List (List UInt8)}
    (h : neighborLoop junk now rounds i tokens t = some t') : rounds ≤ tokens.length := by
  induction rounds generalizing i tokens t with
  | zero => exact Nat.zero_le _
  | succ rounds ih =>
    simp only [neighborLoop, Option.bind_eq_bind, Option.bind_eq_some_iff] at h
    obtain ⟨neighbor, hhead, t₁, -, h⟩ := h
    cases tokens with
    | nil => cases hhead
    | cons token tokens => exact Nat.succ_le_succ (ih h)

lemma passesNull_eq_false {rounds : Nat} {tokens : List (List UInt8)} (h : rounds ≤ tokens.length) :
    passesNull junk now rounds i tokens t = false := by
  induction rounds generalizing i tokens t with
  | zero => rfl
  | succ rounds ih =>
    cases tokens with
    | nil => exact absurd h (Nat.not_succ_le_zero rounds)
    | cons neighbor tokens =>
      rw [passesNull]
      cases neighborRound junk now i neighbor t with
      | none => rfl
      | some t₁ => exact ih (Nat.le_of_succ_le_succ h)

lemma AllFilled.updateNode (h : AllFilled t) (hn : IsNamed t)
    (hupdate : updateNode junk ip seq neighbors t = some t') : AllFilled t' := by
  obtain ⟨t₁, now, t₂, hnode, hclient, ⟨-, hloop⟩ | ⟨-, rfl⟩⟩ := updateNode_cases junk hupdate
  · obtain ⟨hn₁, -, hnow, -⟩ := neighborNode_grown junk hn hnode
    have hlt : now < t₂.next := (hn₁.lt now hnow).trans_le (addClient_sameGraph junk hclient).next
    have F := ((h.neighborNode junk hnode).addClient junk hclient).startUpdate junk hlt seq
      (countCharNum neighbors 44 + 1)
    have F' := F.neighborLoop junk hloop
    rw [Nat.zero_add] at F'
    exact F'.allFilled
  · exact (h.neighborNode junk hnode).addClient junk hclient

lemma allocated_eq {t₁ t₂ : Topo} (hnode : neighborNode junk t ip = some (t₁, now))
    (hclient : addClient junk t₁ ip = some t₂) (hnew : seq > (t₂.heap now).seqNum) :
    allocated junk ip seq neighbors t = some (startUpdate junk t₂ now seq (countCharNum neighbors 44 + 1), now) := by
  unfold allocated
  simp only [hnode, hclient, Option.bind_eq_bind, Option.bind_some, if_pos hnew, Option.pure_def]

lemma allocated_eq_some {t₁ : Topo} (h : allocated junk ip seq neighbors t = some (t₁, now)) :
    ∃ t₀ t₂, neighborNode junk t ip = some (t₀, now) ∧ addClient junk t₀ ip = some t₂ ∧
      seq > (t₂.heap now).seqNum ∧ t₁ = startUpdate junk t₂ now seq (countCharNum neighbors 44 + 1) := by
  obtain ⟨⟨t₀, p⟩, hnode, h⟩ := Option.bind_eq_some_iff.mp h
  obtain ⟨t₂, hclient, h⟩ := Option.bind_eq_some_iff.mp h
  split at h
  · rename_i hnew
    obtain ⟨rfl, rfl⟩ := Prod.mk.inj (Option.some.inj h)
    exact ⟨t₀, t₂, hnode, hclient, hnew, rfl⟩
  · cases h

lemma tokens_of_items (hheard : Heard t read) (hitems : IsNew read ip seq → [] ∉ neighbors.splitOn 44) {t₁ t₂ : Topo}
    (hnode : neighborNode junk t ip = some (t₁, now)) (hclient : addClient junk t₁ ip = some t₂)
    (hnew : seq > (t₂.heap now).seqNum) : (strtok neighbors).length = countCharNum neighbors 44 + 1 := by
  rw [length_strtok_iff]
  exact hitems ((hheard.isNew_iff junk hnode hclient).mp hnew)

/-- A line is safe if it has no empty item where its number is new. -/
lemma safeLine (hheard : Heard t read) (hfilled : AllFilled t)
    (hitems : IsNew read ip seq → [] ∉ neighbors.splitOn 44) : SafeLine junk t ip seq neighbors := by
  have htokens : ∀ t₁ now, allocated junk ip seq neighbors t = some (t₁, now) →
      (strtok neighbors).length = countCharNum neighbors 44 + 1 := by
    intro t₁ now h
    obtain ⟨t₀, t₂, hnode, hclient, hnew, -⟩ := allocated_eq_some junk h
    exact tokens_of_items junk hheard hitems hnode hclient hnew
  constructor
  · intro t₁ now h
    rw [htokens t₁ now h]
    obtain ⟨t₀, t₂, -, -, -, rfl⟩ := allocated_eq_some junk h
    rw [startUpdate_self]
    exact (mallocNeighbors_length junk _).symm
  · intro t₁ now h
    exact passesNull_eq_false junk (htokens t₁ now h).ge
  · obtain ⟨best, hknows, -⟩ := hheard
    exact fun t' hupdate => hfilled.updateNode junk hknows.named hupdate

/-! ## Files -/

/-- The fields of the lines up to the first one without three fields. -/
def readLines : List (List UInt8) → List (List UInt8 × Int × List UInt8)
  | [] => []
  | line :: lines =>
    match sscanfLine line with
    | some (some fields) => fields :: readLines lines
    | _ => []

/-- Where a line has a new number, none of its neighbors is empty. -/
def ItemsFull (read lines : List (List UInt8 × Int × List UInt8)) : Prop :=
  ∀ before ip seq neighbors after, lines = before ++ (ip, seq, neighbors) :: after →
    IsNew (read ++ before) ip seq → [] ∉ neighbors.splitOn 44

lemma itemsFull_nil : ItemsFull read [] := by
  intro before ip seq neighbors after h
  cases before <;> cases h

lemma itemsFull_cons {lines : List (List UInt8 × Int × List UInt8)} :
    ItemsFull read ((ip, seq, neighbors) :: lines) ↔
      (IsNew read ip seq → [] ∉ neighbors.splitOn 44) ∧ ItemsFull (read ++ [(ip, seq, neighbors)]) lines := by
  constructor
  · intro h
    refine ⟨fun hnew => h [] ip seq neighbors lines rfl (by rwa [List.append_nil]), ?_⟩
    intro before ip' seq' neighbors' after hlines hnew
    apply h ((ip, seq, neighbors) :: before) ip' seq' neighbors' after
    · rw [hlines, List.cons_append]
    · rwa [List.append_assoc, List.singleton_append] at hnew
  · rintro ⟨hfirst, hrest⟩ before ip' seq' neighbors' after hlines hnew
    cases before with
    | nil =>
      rw [List.nil_append] at hlines
      obtain ⟨heq, -⟩ := List.cons.inj hlines
      obtain ⟨rfl, rfl, rfl⟩ : ip = ip' ∧ seq = seq' ∧ neighbors = neighbors' := by simpa using heq
      rw [List.append_nil] at hnew
      exact hfirst hnew
    | cons first before =>
      rw [List.cons_append] at hlines
      obtain ⟨rfl, htail⟩ := List.cons.inj hlines
      apply hrest before ip' seq' neighbors' after htail
      rwa [List.append_assoc, List.singleton_append]

/-- Every line of a run is safe when no new line has an empty item. -/
lemma visits_safe {lines : List (List UInt8)} (hheard : Heard t read) (hfilled : AllFilled t)
    (hitems : ItemsFull read (readLines lines)) {t₁ : Topo}
    (h : (t₁, ip, seq, neighbors) ∈ visits junk lines t) : SafeLine junk t₁ ip seq neighbors := by
  induction lines generalizing t read with
  | nil => cases h
  | cons line lines ih =>
    rw [visits] at h
    rw [readLines] at hitems
    cases hscan : sscanfLine line with
    | none => simp [hscan] at h
    | some fields =>
      cases fields with
      | none => simp [hscan] at h
      | some fields =>
        obtain ⟨ip', seq', neighbors'⟩ := fields
        rw [hscan] at h hitems
        dsimp only at h hitems
        obtain ⟨hfirst, hrest⟩ := itemsFull_cons.mp hitems
        rcases List.mem_cons.mp h with h | h
        · obtain ⟨rfl, rfl, rfl, rfl⟩ : t₁ = t ∧ ip = ip' ∧ seq = seq' ∧ neighbors = neighbors' := by
            simpa using h
          exact safeLine junk hheard hfilled hfirst
        · cases hupdate : updateNode junk ip' seq' neighbors' t with
          | none =>
            rw [hupdate] at h
            cases h
          | some t₂ =>
            rw [hupdate] at h
            obtain ⟨best, hknows, -⟩ := id hheard
            exact ih (hheard.updateNode junk hupdate) (hfilled.updateNode junk hknows.named hupdate) hrest h

/-- A line that is left behind has no empty item where its number is new. -/
lemma items_of_updateNode (hheard : Heard t read) (hupdate : updateNode junk ip seq neighbors t = some t')
    (hnew : IsNew read ip seq) : [] ∉ neighbors.splitOn 44 := by
  obtain ⟨t₁, now, t₂, hnode, hclient, hcases⟩ := updateNode_cases junk hupdate
  have hseq := (hheard.isNew_iff junk hnode hclient).mpr hnew
  rcases hcases with ⟨-, hloop⟩ | ⟨hold, -⟩
  · rw [← length_strtok_iff]
    exact le_antisymm (length_strtok_le neighbors) (neighborLoop_tokens junk hloop)
  · exact absurd hseq hold

/-- A run that returns has met no empty item of a new line. -/
lemma itemsFull_of_returns {lines : List (List UInt8)} {ret : Int} (hheard : Heard t read)
    (h : parseLsaLines junk lines t = some (ret, t')) : ItemsFull read (readLines lines) := by
  induction lines generalizing t read with
  | nil => exact itemsFull_nil
  | cons line lines ih =>
    rw [parseLsaLines] at h
    rw [readLines]
    obtain ⟨fields, hscan, h⟩ := Option.bind_eq_some_iff.mp h
    rw [hscan]
    cases fields with
    | none => exact itemsFull_nil
    | some fields =>
      obtain ⟨ip', seq', neighbors'⟩ := fields
      obtain ⟨t₁, hupdate, h⟩ := Option.bind_eq_some_iff.mp h
      apply itemsFull_cons.mpr
      exact ⟨items_of_updateNode junk hheard hupdate, ih (hheard.updateNode junk hupdate) h⟩

/-! ## Runs with cleared memory -/

lemma sender_length {line : List UInt8} (h : sscanfLine line = some (some (ip, seq, neighbors))) :
    ip.length < maxIpLen := by
  unfold sscanfLine at h
  dsimp only at h
  split at h
  · cases h
  · split at h
    · cases h
    · rename_i hlen
      obtain ⟨number, -, h⟩ := Option.bind_eq_some_iff.mp h
      cases number with
      | none => cases h
      | some number =>
        dsimp only at h
        split at h
        · cases h
        · split at h
          · cases h
          · obtain ⟨rfl, -⟩ := Prod.mk.inj (Option.some.inj (Option.some.inj h))
            exact Nat.not_le.mp hlen

/-- The sender and the number of every line fit what they are read into, and the tokens of the neighbors the `ip` of
a node. -/
structure TokensFit (lines : List (List UInt8)) : Prop where
  scans : ∀ line ∈ lines, sscanfLine line ≠ none
  tokens : ∀ ip seq neighbors, (ip, seq, neighbors) ∈ readLines lines → ∀ n ∈ strtok neighbors, n.length < maxIpLen

/-- The fields of the first line fit, and the lines behind it. -/
lemma TokensFit.cons {line : List UInt8} {lines : List (List UInt8)} (h : TokensFit (line :: lines))
    (hscan : sscanfLine line = some (some (ip, seq, neighbors))) :
    (∀ n ∈ strtok neighbors, n.length < maxIpLen) ∧ TokensFit lines := by
  have hread : readLines (line :: lines) = (ip, seq, neighbors) :: readLines lines := by
    rw [readLines, hscan]
  refine ⟨h.tokens ip seq neighbors (hread ▸ List.mem_cons_self),
    fun l hl => h.scans l (List.mem_cons_of_mem _ hl), fun ip seq neighbors hmem => ?_⟩
  exact h.tokens ip seq neighbors (hread ▸ List.mem_cons_of_mem _ hmem)

/-- In cleared memory a run whose lines are all safe gets to every line. -/
lemma itemsFull_of_safe (hjunk : ∀ a, junk.neighborNum a = 0) {lines : List (List UInt8)}
    {s : LinkState.State (List UInt8)} (R : Refines t s) (hheard : Heard t read) (hfit : TokensFit lines)
    (hsafe : ∀ t₁ ip seq neighbors, (t₁, ip, seq, neighbors) ∈ visits junk lines t →
      SafeLine junk t₁ ip seq neighbors) : ItemsFull read (readLines lines) := by
  induction lines generalizing t s read with
  | nil => exact itemsFull_nil
  | cons line lines ih =>
    rw [visits] at hsafe
    rw [readLines]
    cases hscan : sscanfLine line with
    | none => exact itemsFull_nil
    | some fields =>
      cases fields with
      | none => exact itemsFull_nil
      | some fields =>
        obtain ⟨ip', seq', neighbors'⟩ := fields
        rw [hscan] at hsafe
        dsimp only at hsafe ⊢
        have hfirst := hsafe t ip' seq' neighbors' List.mem_cons_self
        obtain ⟨hfit', hlater⟩ := hfit.cons hscan
        have htokens : ∀ t₁ now t₂, neighborNode junk t ip' = some (t₁, now) → addClient junk t₁ ip' = some t₂ →
            seq' > (t₂.heap now).seqNum → (∀ n ∈ strtok neighbors', n.length < maxIpLen) ∧
              (strtok neighbors').length = countCharNum neighbors' 44 + 1 := by
          intro t₁ now t₂ hnode hclient hnew
          refine ⟨hfit', ?_⟩
          rw [hfirst.count _ now (allocated_eq junk hnode hclient hnew), startUpdate_self]
          exact mallocNeighbors_length junk _
        obtain ⟨t₁, s₁, hupdate, R₁⟩ := updateNode_defined junk hjunk R (sender_length hscan) htokens
        rw [hupdate] at hsafe
        apply itemsFull_cons.mpr
        refine ⟨items_of_updateNode junk hheard hupdate, ?_⟩
        apply ih R₁ (hheard.updateNode junk hupdate) hlater
        exact fun t₂ ip seq neighbors hmem => hsafe t₂ ip seq neighbors (List.mem_cons_of_mem _ hmem)

/-- In cleared memory a run is not broken off when no new line has an empty item. -/
lemma parseLsaLines_returns (hjunk : ∀ a, junk.neighborNum a = 0) {lines : List (List UInt8)}
    {s : LinkState.State (List UInt8)} (R : Refines t s) (hheard : Heard t read) (hfit : TokensFit lines)
    (hitems : ItemsFull read (readLines lines)) :
    ∃ ret t', parseLsaLines junk lines t = some (ret, t') := by
  induction lines generalizing t s read with
  | nil => exact ⟨0, t, rfl⟩
  | cons line lines ih =>
    rw [readLines] at hitems
    cases hline : sscanfLine line with
    | none => exact absurd hline (hfit.scans line List.mem_cons_self)
    | some fields =>
      cases fields with
      | none => exact ⟨-1, t, by rw [parseLsaLines, hline]; rfl⟩
      | some fields =>
        obtain ⟨ip', seq', neighbors'⟩ := fields
        rw [hline] at hitems
        dsimp only at hitems
        obtain ⟨hfirst, hrest⟩ := itemsFull_cons.mp hitems
        obtain ⟨hfit', hlater⟩ := hfit.cons hline
        obtain ⟨t₁, s₁, hupdate, R₁⟩ := updateNode_defined junk hjunk R (sender_length hline)
          fun t₁ now t₂ hnode hclient hnew => ⟨hfit', tokens_of_items junk hheard hfirst hnode hclient hnew⟩
        obtain ⟨ret, t', hparse⟩ := ih R₁ (hheard.updateNode junk hupdate) hlater hrest
        refine ⟨ret, t', ?_⟩
        rw [parseLsaLines_fields junk hline, hupdate]
        exact hparse

/-! ## The law -/

lemma parseServerLines_allFilled {lines : List (List UInt8)} (ht : AllFilled t)
    (h : parseServerLines junk lines t = some t') : AllFilled t' := by
  induction lines generalizing t with
  | nil =>
    obtain rfl := Option.some.inj h
    exact ht
  | cons line lines ih =>
    rw [parseServerLines] at h
    split at h
    · cases h
    · split at h
      · cases h
      · obtain ⟨⟨t₁, nodes, p⟩, hadd, h⟩ := Option.bind_eq_some_iff.mp h
        obtain ⟨⟨t₂, servers, q⟩, hservers, h⟩ := Option.bind_eq_some_iff.mp h
        have h₁ : AllFilled t₁ := ht.addNodeByIpWithNum junk hadd
        have h₂ : AllFilled t₂ :=
          AllFilled.addNodeByIpWithNum (t := { t₁ with nodes := nodes }) junk h₁ hservers
        exact ih (t := { t₂ with servers := servers }) h₂ h

lemma parseServerFile_allFilled {file : Option (List UInt8)} {ret : Int} (ht : AllFilled t)
    (h : parseServerFile junk file t = some (ret, t')) : AllFilled t' := by
  cases file with
  | none =>
    obtain ⟨-, rfl⟩ := Prod.mk.inj (Option.some.inj h)
    exact ht
  | some text =>
    obtain ⟨t₁, hlines, h⟩ := Option.bind_eq_some_iff.mp h
    obtain ⟨-, rfl⟩ := Prod.mk.inj (Option.some.inj h)
    have hfilled := parseServerLines_allFilled junk ht hlines
    exact hfilled

lemma allFilled_init : AllFilled init := fun _ _ hslot => absurd hslot List.not_mem_nil

/-- Whatever memory holds and whichever servers were read before, an LSA file is parsed safely exactly when no line
whose number is new has an empty item among its neighbors. -/
theorem parsesSafely_iff (file : List UInt8) (hfit : TokensFit (fgetsLines [] file)) :
    (∀ (junk : Junk) (serverFile : Option (List UInt8)) (ret : Int) (t : Topo),
      parseServerFile junk serverFile init = some (ret, t) → ParsesSafely junk file t) ↔
      ItemsFull [] (readLines (fgetsLines [] file)) := by
  constructor
  · intro h
    rcases h zeroJunk none (-1) init rfl with ⟨t', hparse⟩ | hsafe
    · exact itemsFull_of_returns zeroJunk knows_init.heard hparse
    · exact itemsFull_of_safe zeroJunk (fun _ => rfl) refines_init knows_init.heard hfit hsafe
  · intro hitems junk serverFile ret t hserver
    refine Or.inr fun t₁ ip seq neighbors hvisit => ?_
    exact visits_safe junk (parseServerFile_knows junk hserver).heard
      (parseServerFile_allFilled junk allFilled_init hserver) hitems hvisit

/-- In cleared memory the file is then read to its end, or up to a line without three fields. -/
theorem parseLsaFile_returns (hjunk : ∀ a, junk.neighborNum a = 0) {serverFile : Option (List UInt8)} {ret₀ : Int}
    (hserver : parseServerFile junk serverFile init = some (ret₀, t)) (file : List UInt8)
    (hfit : TokensFit (fgetsLines [] file))
    (hitems : ItemsFull [] (readLines (fgetsLines [] file))) :
    ∃ ret t', parseLsaFile junk (some file) t = some (ret, t') :=
  parseLsaLines_returns junk hjunk (parseServerFile_refines junk hjunk refines_init hserver)
    (parseServerFile_knows junk hserver).heard hfit hitems

section Example

/-- Two servers with an empty item between them. -/
def doubledComma : List UInt8 := bytes "1.0.0.1 0 2.0.0.1,,3.0.0.1"

lemma tokensFit_doubledComma : TokensFit (fgetsLines [] doubledComma) := by
  have hread : readLines (fgetsLines [] doubledComma) = [(bytes "1.0.0.1", 0, bytes "2.0.0.1,,3.0.0.1")] := by
    decide
  have htokens : ∀ n ∈ strtok (bytes "2.0.0.1,,3.0.0.1"), n.length < maxIpLen := by
    decide
  refine ⟨by decide, fun ip seq neighbors hmem => ?_⟩
  rw [hread] at hmem
  obtain ⟨rfl, rfl, rfl⟩ : ip = bytes "1.0.0.1" ∧ seq = 0 ∧ neighbors = bytes "2.0.0.1,,3.0.0.1" := by
    simpa using hmem
  exact htokens

/-- The third of three slots has no token. -/
theorem parsesSafely_doubledComma : ¬∀ file : List UInt8, TokensFit (fgetsLines [] file) →
    ∀ (junk : Junk) (serverFile : Option (List UInt8)) (ret : Int) (t : Topo),
      parseServerFile junk serverFile init = some (ret, t) → ParsesSafely junk file t := by
  intro h
  have hscan : fgetsLines [] doubledComma = [doubledComma] ∧
      sscanfLine doubledComma = some (some (bytes "1.0.0.1", 0, bytes "2.0.0.1,,3.0.0.1")) := by
    decide
  rcases h doubledComma tokensFit_doubledComma zeroJunk none (-1) init rfl with ⟨t', hparse⟩ | hsafe
  · have hnone : (parseLsaFile zeroJunk (some doubledComma) init).isNone = true := by
      decide
    rw [hparse] at hnone
    cases hnone
  · have hvisit := hsafe init (bytes "1.0.0.1") 0 (bytes "2.0.0.1,,3.0.0.1") (by
      rw [hscan.1, visits, hscan.2]
      exact List.mem_cons_self)
    have hslots : ((allocated zeroJunk (bytes "1.0.0.1") 0 (bytes "2.0.0.1,,3.0.0.1") init).map fun r =>
        ((r.1.heap r.2).neighbors).length) = some 3 := by
      decide
    obtain ⟨⟨t₁, now⟩, hstart, hlen⟩ := Option.map_eq_some_iff.mp hslots
    have hcount := hvisit.count t₁ now hstart
    rw [hlen] at hcount
    exact absurd hcount (by decide)

theorem parsesSafely_iff_doubledComma :
    (∀ (junk : Junk) (serverFile : Option (List UInt8)) (ret : Int) (t : Topo),
      parseServerFile junk serverFile init = some (ret, t) → ParsesSafely junk doubledComma t) ↔
      ItemsFull [] (readLines (fgetsLines [] doubledComma)) :=
  parsesSafely_iff doubledComma tokensFit_doubledComma

end Example

end VideoCDN.Nameserver
