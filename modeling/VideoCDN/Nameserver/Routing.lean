import VideoCDN.Nameserver.LoadBalance

/-!
# Nearest servers

The search of `load_balance.c` refines the breadth-first search over hop distances, so the
routing table assigns to every client a server at minimal hop distance.
-/

namespace VideoCDN.Nameserver

open CString HopGraph

/-- A queue of nodes. -/
def Queued (q : SearchQueue) (l : List Nat) : Prop :=
  ∃ cells, IsQueue q.mem 0 1 cells ∧ cells.map (fun c => (q.mem c).n) = l ∧
    (∀ c ∈ cells, c < q.next) ∧ 1 < q.next

lemma queued_init : Queued initQueue [] :=
  ⟨[], isQueue_nil (by decide) rfl rfl, rfl, by simp, by decide⟩

lemma queued_push {q : SearchQueue} {l : List Nat} (h : Queued q l) (n : Nat) :
    ∃ q', q.push n = some q' ∧ Queued q' (l ++ [n]) := by
  obtain ⟨cells, hq, hl, hlt, hnext⟩ := h
  have hfresh : ∀ x ∈ 0 :: (cells ++ [1]), x < q.next := by
    intro x hx
    simp only [List.mem_cons, List.mem_append, List.not_mem_nil, or_false] at hx
    rcases hx with rfl | hx | rfl
    · omega
    · exact hlt x hx
    · exact hnext
  have hq' : IsQueue (Function.update q.mem q.next ⟨n, none, none⟩) 0 1 cells :=
    hq.congr fun x hx => Function.update_of_ne (hfresh x hx).ne _ _
  obtain ⟨mem, hpush, hmem, hn⟩ := pushBack_spec hq' q.next fun h => (hfresh _ h).false
  refine ⟨⟨mem, q.next + 1⟩, by simp [SearchQueue.push, hpush], cells ++ [q.next], hmem, ?_, ?_, ?_⟩
  · have hold : cells.map (fun c => (mem c).n) = l := by
      rw [← hl]
      refine List.map_congr_left fun c hc => ?_
      rw [hn, Function.update_of_ne (hlt c hc).ne]
    rw [List.map_append, hold]
    simp [hn]
  · intro c hc
    rcases List.mem_append.mp hc with hc | hc
    · exact (hlt c hc).trans (Nat.lt_succ_self _)
    · rw [List.mem_singleton.mp hc]
      exact Nat.lt_succ_self _
  · exact Nat.lt_succ_of_lt hnext

lemma queued_pop {q : SearchQueue} {n : Nat} {l : List Nat} (h : Queued q (n :: l)) :
    ∃ mem now, popFront q.mem 0 = some (mem, now) ∧ (mem now).n = n ∧ Queued ⟨mem, q.next⟩ l := by
  obtain ⟨cells, hq, hl, hlt, hnext⟩ := h
  obtain ⟨c, cells, rfl, hc, hrest⟩ := List.map_eq_cons_iff.mp hl
  obtain ⟨mem, hpop, hmem, hn⟩ := popFront_spec hq
  refine ⟨mem, c, hpop, by rw [hn, hc], cells, hmem, ?_, fun x hx => hlt x (by simp [hx]), hnext⟩
  rw [← hrest]
  exact List.map_congr_left fun x _ => hn x

lemma queued_isEmpty {q : SearchQueue} {l : List Nat} (h : Queued q l) :
    isEmpty q.mem 0 1 = true ↔ l = [] := by
  obtain ⟨cells, hq, hl, -⟩ := h
  rw [isEmpty_iff hq, ← hl, List.map_eq_nil_iff]

/-- The nodes list holds distinct addresses and complete neighbor arrays of listed nodes. -/
structure IsGraph (t : Topo) : Prop where
  ips : (t.nodes.header.map fun p => (t.heap p).ip).Nodup
  num : ∀ p ∈ t.nodes.header, (t.heap p).neighborNum = (t.heap p).neighbors.length
  filled : ∀ p ∈ t.nodes.header, ∀ slot ∈ (t.heap p).neighbors, ∃ q ∈ t.nodes.header, slot = .filled q

/-- `q` is a neighbor of `p`. -/
def Adj (t : Topo) (p q : Nat) : Prop := .filled q ∈ (t.heap p).neighbors

/-- The nodes with other marks. -/
def mark (t : Topo) (visited : Nat → Bool) : Topo :=
  { t with heap := fun p => { t.heap p with visited := visited p } }

lemma isServer_mark (t : Topo) (visited : Nat → Bool) (p : Nat) :
    isServer (mark t visited) p = isServer t p := rfl

lemma visit_mark (t : Topo) (visited : Nat → Bool) (p : Nat) :
    visit (mark t visited) p = mark t (Function.update visited p true) := by
  unfold visit mark
  congr 1
  funext x
  by_cases hx : x = p
  · subst hx
    simp
  · simp [hx]

lemma clearVisited_mark (t : Topo) (visited : Nat → Bool) :
    clearVisited (mark t visited) =
      mark t fun p => if p ∈ t.nodes.header then false else visited p := by
  unfold clearVisited mark
  congr 1
  funext p
  by_cases hp : p ∈ t.nodes.header <;> simp [hp]

lemma mark_self (t : Topo) : mark t (fun p => (t.heap p).visited) = t := rfl

/-- The neighbors in the order the search looks at them. -/
def succs (t : Topo) (p : Nat) : List Nat := (t.heap p).neighbors.reverse.filterMap Slot.value

variable {t : Topo}

lemma mem_succs (hg : IsGraph t) {p : Nat} (hp : p ∈ t.nodes.header) (q : Nat) :
    q ∈ succs t p ↔ Adj t p q := by
  simp only [succs, List.mem_filterMap, List.mem_reverse, Adj]
  constructor
  · rintro ⟨slot, hslot, hvalue⟩
    obtain ⟨q', -, rfl⟩ := hg.filled p hp slot hslot
    obtain rfl : q' = q := Option.some.inj hvalue
    exact hslot
  · exact fun h => ⟨_, h, rfl⟩

lemma adj_closed (hg : IsGraph t) {p q : Nat} (hp : p ∈ t.nodes.header) (h : Adj t p q) :
    q ∈ t.nodes.header := by
  obtain ⟨q', hq', heq⟩ := hg.filled p hp _ h
  cases heq
  exact hq'

/-- The neighbor loop is the scan of the abstract search. -/
lemma scanNeighbors_refines (hg : IsGraph t) {n : Nat} (hn : n ∈ t.nodes.header) {i : Nat}
    (hi : i ≤ (t.heap n).neighbors.length) {visited marks : Nat → Bool} {q : SearchQueue} {l : List Nat}
    (hq : Queued q l) (hmarks : ∀ p ∈ t.nodes.header, marks p = visited p) :
    ∃ marks' q' serverIp, scanNeighbors n i (mark t marks) q = some (mark t marks', q', serverIp) ∧
      match scan (isServer t) (((t.heap n).neighbors.take i).reverse.filterMap Slot.value) l visited with
      | .inl w => serverIp = some (t.heap w).ip
      | .inr (l', visited') => serverIp = none ∧ Queued q' l' ∧ ∀ p ∈ t.nodes.header, marks' p = visited' p := by
  induction i generalizing visited marks q l with
  | zero => exact ⟨marks, q, none, rfl, rfl, hq, hmarks⟩
  | succ i ih =>
    obtain ⟨p, hp, hslot⟩ := hg.filled n hn _ (List.getElem_mem (show i < _ by omega))
    have hget : (t.heap n).neighbors[i]? = some (.filled p) := by
      rw [List.getElem?_eq_getElem (by omega), hslot]
    have hat : neighborAt (mark t marks) n i = some p := by
      simp [neighborAt, mark, hget]
    have htake : (((t.heap n).neighbors.take (i + 1)).reverse.filterMap Slot.value) =
        p :: ((t.heap n).neighbors.take i).reverse.filterMap Slot.value := by
      rw [List.take_add_one, hget]
      simp [Slot.value]
    rw [htake, scan, ← hmarks p hp]
    simp only [scanNeighbors, hat, Option.bind_eq_bind, Option.bind_some]
    by_cases hvis : marks p = true
    · simpa [mark, hvis] using ih (by omega) hq hmarks
    · by_cases hserver : isServer t p = true
      · refine ⟨marks, q, some (t.heap p).ip, ?_, by simp [hvis, hserver]⟩
        rw [if_neg (by simpa [mark] using hvis), if_pos ((isServer_mark t marks p).trans hserver)]
        rfl
      · obtain ⟨q', hpush, hq'⟩ := queued_push hq p
        have hmarks' : ∀ x ∈ t.nodes.header, Function.update marks p true x = Function.update visited p true x := by
          intro x hx
          by_cases hxp : x = p <;> simp [hxp, hmarks x hx]
        obtain ⟨marks', q'', serverIp, hrun, hres⟩ := ih (by omega) hq' hmarks'
        refine ⟨marks', q'', serverIp, ?_, by simpa [hvis, hserver] using hres⟩
        rw [if_neg (by simpa [mark] using hvis), if_neg (by rwa [isServer_mark]), hpush, Option.bind_some,
          visit_mark]
        exact hrun

/-- The search loop is the abstract search loop. -/
lemma searchLoop_refines (hg : IsGraph t) {fuel : Nat} {visited marks : Nat → Bool} {q : SearchQueue}
    {l : List Nat} (hq : Queued q l) (hl : ∀ p ∈ l, p ∈ t.nodes.header)
    (hmarks : ∀ p ∈ t.nodes.header, marks p = visited p) {r : Option Nat}
    (h : bfsLoop (succs t) (isServer t) fuel l visited = some r) :
    ∃ marks', searchLoop fuel (mark t marks) q = some (mark t marks', r.map fun w => (t.heap w).ip) := by
  induction fuel generalizing visited marks q l with
  | zero => simp [bfsLoop] at h
  | succ fuel ih =>
    rw [searchLoop]
    cases l with
    | nil =>
      obtain rfl : none = r := by simpa [bfsLoop] using h
      exact ⟨marks, by rw [if_pos ((queued_isEmpty hq).mpr rfl)]; rfl⟩
    | cons n l =>
      have hn := hl n (by simp)
      have hne : ¬isEmpty q.mem 0 1 = true := by
        rw [queued_isEmpty hq]
        simp
      obtain ⟨mem, now, hpop, rfl, hq'⟩ := queued_pop hq
      have hnum : ((mark t marks).heap (mem now).n).neighborNum.toNat =
          (t.heap (mem now).n).neighbors.length := by
        simp [mark, hg.num _ hn]
      obtain ⟨marks', q', serverIp, hrun, hres⟩ :=
        scanNeighbors_refines hg hn le_rfl hq' hmarks
      rw [List.take_length] at hres
      rw [if_neg hne, hpop]
      simp only [Option.bind_eq_bind, Option.bind_some, hnum, hrun]
      rw [bfsLoop] at h
      change match scan (isServer t) (succs t (mem now).n) l visited with | .inl w => _ | .inr (l', visited') => _ at hres
      cases hscan : scan (isServer t) (succs t (mem now).n) l visited with
      | inl w =>
        rw [hscan] at h hres
        obtain rfl := Option.some.inj h
        exact ⟨marks', by simp [hres]⟩
      | inr res =>
        obtain ⟨l', visited'⟩ := res
        rw [hscan] at h hres
        obtain ⟨rfl, hq'', hmarks'⟩ := hres
        have hl' : ∀ p ∈ l', p ∈ t.nodes.header := by
          obtain ⟨new, rfl, -, -, hnew, -⟩ := scan_inr hscan
          intro p hp
          rcases List.mem_append.mp hp with hp | hp
          · exact hl p (by simp [hp])
          · exact adj_closed hg hn ((mem_succs hg hn p).mp (hnew p hp).2.1)
        simpa using ih hq'' hl' hmarks' h

/-- The address of `p` is that of a listed server. -/
def IsListed (t : Topo) (p : Nat) : Prop := ∃ s ∈ t.servers.header, (t.heap s).ip = (t.heap p).ip

instance (t : Topo) (p : Nat) : Decidable (IsListed t p) :=
  inferInstanceAs (Decidable (∃ s ∈ t.servers.header, (t.heap s).ip = (t.heap p).ip))

lemma isServer_iff (t : Topo) (p : Nat) : isServer t p = true ↔ IsListed t p := by
  simp [isServer, existInList, IsListed]

lemma existInList_eq_none_iff (heap : Nat → Node) (ip : List UInt8) (header : List Nat) :
    existInList heap ip header = none ↔ ∀ s ∈ header, (heap s).ip ≠ ip := by
  simp [existInList]

lemma walk_succs_iff (hg : IsGraph t) {p : Nat} (hp : p ∈ t.nodes.header) (n q : Nat) :
    Walk (fun v w => w ∈ succs t v) p n q ↔ Walk (Adj t) p n q :=
  walk_congr (· ∈ t.nodes.header) hp
    (fun _ w hv hw => adj_closed hg hv ((mem_succs hg hv w).mp hw)) fun _ w hv => mem_succs hg hv w

/-- The search from a node that is no server finds a nearest one, if any is reachable. -/
lemma bfs_spec (hg : IsGraph t) {p : Nat} (hp : p ∈ t.nodes.header) (hserver : ¬IsListed t p)
    (marks : Nat → Bool) :
    ∃ marks' r, bfs (mark t marks) p = some (mark t marks', r.map fun w => (t.heap w).ip) ∧
      (∀ w, r = some w → IsNearest (Adj t) p (IsListed t) w) ∧
      (r = none → ∀ n q, Walk (Adj t) p n q → ¬IsListed t q) := by
  have hclosed : ∀ v ∈ t.nodes.header.toFinset, ∀ w ∈ succs t v, w ∈ t.nodes.header.toFinset := by
    intro v hv w hw
    rw [List.mem_toFinset] at hv ⊢
    exact adj_closed hg hv ((mem_succs hg hv w).mp hw)
  have hcard : t.nodes.header.toFinset.card < t.nodes.header.length + 1 :=
    Nat.lt_succ_of_le (List.toFinset_card_le _)
  have htarget : isServer t p = false := by
    rwa [← Bool.not_eq_true, isServer_iff]
  obtain ⟨r, hr, hsome, hnone⟩ :=
    bfs_correct t.nodes.header.toFinset hclosed (List.mem_toFinset.mpr hp) htarget hcard
  obtain ⟨q, hpush, hq⟩ := queued_push queued_init p
  have hmarks : ∀ x ∈ t.nodes.header,
      Function.update (fun x => if x ∈ t.nodes.header then false else marks x) p true x =
        Function.update (fun _ => false) p true x := by
    intro x hx
    by_cases hxp : x = p <;> simp [hxp, hx]
  obtain ⟨marks', hrun⟩ := searchLoop_refines hg hq (by simpa using hp) hmarks hr
  refine ⟨marks', r, ?_, fun w hw => ?_, fun hn n q hwalk => ?_⟩
  · rw [bfs, clearVisited_mark, visit_mark, hpush, Option.bind_eq_bind, Option.bind_some]
    exact hrun
  · exact (isNearest_congr (walk_succs_iff hg hp) fun v => isServer_iff t v).mp (hsome w hw)
  · rw [← isServer_iff, Bool.not_eq_true]
    exact hnone hn n q ((walk_succs_iff hg hp n q).mpr hwalk)

/-- `s` is the address of a listed server at minimal hop distance from `p`, or of the first
server of the list when none is reachable. -/
def IsNearestServer (t : Topo) (p : Nat) (s : List UInt8) : Prop :=
  (∃ q ∈ t.nodes.header, (t.heap q).ip = s ∧ IsNearest (Adj t) p (IsListed t) q) ∨
    (∀ n q, Walk (Adj t) p n q → ¬IsListed t q) ∧
      ∃ first, t.servers.header.head? = some first ∧ s = (t.heap first).ip

/-- The nodes that get an entry: no server, no router, at least one neighbor. -/
def HasEntry (t : Topo) (p : Nat) : Prop :=
  ¬IsListed t p ∧ (t.heap p).ip.head? ≠ some 114 ∧ (t.heap p).neighbors ≠ []

lemma skipped_eq_false_iff (hg : IsGraph t) {p : Nat} (hp : p ∈ t.nodes.header) :
    skipped t p = false ↔ HasEntry t p := by
  simp [skipped, HasEntry, ← isServer_iff, hg.num p hp, and_assoc]

/-- The entry of a client with its server. -/
def entry (r : List UInt8 × List UInt8) : RoutingTableEntry := ⟨some r.1, some r.2⟩

/-- The entries the loop writes for the nodes of `l`. -/
def IsRoute (t : Topo) (p : Nat) (r : List UInt8 × List UInt8) : Prop :=
  r.1 = (t.heap p).ip ∧ IsNearestServer t p r.2

/-- `p` stays in the nodes list along a walk. -/
lemma walk_mem (hg : IsGraph t) {p q n : Nat} (hp : p ∈ t.nodes.header) (h : Walk (Adj t) p n q) :
    q ∈ t.nodes.header := by
  induction h with
  | zero => exact hp
  | step _ hvw ih => exact adj_closed hg ih hvw

lemma setClientIp_append (done rest : List RoutingTableEntry) (e : RoutingTableEntry) (ip : List UInt8) :
    setClientIp (done ++ e :: rest) done.length ip = some (done ++ { e with clientIp := some ip } :: rest) := by
  simp [setClientIp]

lemma setServerIp_append (done rest : List RoutingTableEntry) (e : RoutingTableEntry) (ip : List UInt8) :
    setServerIp (done ++ e :: rest) done.length ip = some (done ++ { e with serverIp := some ip } :: rest) := by
  simp [setServerIp]

/-- The loop over the nodes of `l` completes one entry for each node that is not skipped. -/
lemma routeLoop_spec (hg : IsGraph t) (hservers : t.servers.header ≠ []) {l : List Nat}
    (hl : ∀ p ∈ l, p ∈ t.nodes.header) (hlast : ∀ h : l ≠ [], IsListed t (l.getLast h)) (marks : Nat → Bool)
    (done rest : List RoutingTableEntry) (hlen : l.length ≤ rest.length) (hrest : ∀ e ∈ rest, e.serverIp = none) :
    ∃ marks' routes rest', routeLoop l done.length (mark t marks) (done ++ rest) =
        some (mark t marks', done ++ routes.map entry ++ rest') ∧
      List.Forall₂ (IsRoute t) (l.filter fun p => !skipped t p) routes ∧ ∀ e ∈ rest', e.serverIp = none := by
  induction l generalizing marks done rest with
  | nil => exact ⟨marks, [], rest, by simp [routeLoop], by simp, hrest⟩
  | cons p l ih =>
    have hp := hl p (by simp)
    have htail : ∀ q ∈ l, q ∈ t.nodes.header := fun q hq => hl q (by simp [hq])
    have hlast' : ∀ h : l ≠ [], IsListed t (l.getLast h) := fun h => by
      simpa [List.getLast_cons h] using hlast (by simp)
    obtain ⟨e, rest, rfl⟩ := List.exists_cons_of_length_pos (show 0 < rest.length by simp at hlen; omega)
    have he : e.serverIp = none := hrest e (by simp)
    have hset := setClientIp_append done rest e (t.heap p).ip
    have hip : ((mark t marks).heap p).ip = (t.heap p).ip := rfl
    have hmark : skipped (mark t marks) p = skipped t p := rfl
    simp only [routeLoop, hip, hset, Option.bind_eq_bind, Option.bind_some]
    by_cases hskip : skipped t p = true
    · have hrest' : ∀ x ∈ { e with clientIp := some (t.heap p).ip } :: rest, x.serverIp = none := by
        intro x hx
        rcases List.mem_cons.mp hx with rfl | hx
        · exact he
        · exact hrest x (by simp [hx])
      obtain ⟨marks', routes, rest', hrun, hroutes, hnone⟩ :=
        ih htail hlast' marks done _ (by simp at hlen ⊢; omega) hrest'
      exact ⟨marks', routes, rest', by rw [if_pos (hmark.trans hskip), hrun], by simpa [hskip] using hroutes, hnone⟩
    · have hentry := (skipped_eq_false_iff hg hp).mp (by simpa using hskip)
      obtain ⟨marks₁, r, hbfs, hsome, hnone⟩ := bfs_spec hg hp hentry.1 marks
      obtain ⟨first, more, hfirst⟩ := List.exists_cons_of_ne_nil hservers
      -- the last node is a server, so some node follows
      obtain ⟨next, l, rfl⟩ : ∃ next l', l = next :: l' := by
        cases l with
        | nil => exact absurd (hlast (by simp)) hentry.1
        | cons next l => exact ⟨next, l, rfl⟩
      obtain ⟨s, hseq⟩ : ∃ s, (r.map fun w => (t.heap w).ip).getD (t.heap first).ip = s := ⟨_, rfl⟩
      have hs : IsNearestServer t p s := by
        cases hr : r with
        | none => exact Or.inr ⟨hnone hr, first, by simp [hfirst], by simp [← hseq, hr]⟩
        | some w =>
          obtain ⟨ht, d, hd, hmin⟩ := hsome w hr
          exact Or.inl ⟨w, walk_mem hg hp hd.1, by simp [← hseq, hr], ht, d, hd, hmin⟩
      have hlen' : done.length + 1 = (done ++ [entry ((t.heap p).ip, s)]).length := by simp
      obtain ⟨marks', routes, rest', hrun, hroutes, hnone'⟩ :=
        ih htail hlast' marks₁ (done ++ [entry ((t.heap p).ip, s)]) rest (by simpa using hlen)
          fun x hx => hrest x (by simp [hx])
      refine ⟨marks', ((t.heap p).ip, s) :: routes, rest', ?_, ?_, hnone'⟩
      · have hhead : (mark t marks₁).servers.header.head? = some first := by simp [mark, hfirst]
        have hdefault : ((mark t marks₁).heap first).ip = (t.heap first).ip := rfl
        rw [if_neg (by rwa [hmark]), hbfs]
        simp only [Option.bind_some, hhead, hdefault, hseq, setServerIp_append, List.head?_cons]
        rw [hlen']
        simpa [entry] using hrun
      · rw [List.filter_cons_of_pos (by simpa using hskip)]
        exact List.Forall₂.cons ⟨rfl, hs⟩ hroutes

/-- The table starts with one complete entry for each client node, with a nearest server, and
nothing was copied to the server fields after them. -/
structure IsRoutingTable (t : Topo) (table : List RoutingTableEntry)
    (routes : List (List UInt8 × List UInt8)) : Prop where
  filled : ∃ rest, table = routes.map entry ++ rest ∧ ∀ e ∈ rest, e.serverIp = none
  nodup : (routes.map Prod.fst).Nodup
  clients : ∀ ip, ip ∈ routes.map Prod.fst ↔ ∃ p ∈ t.nodes.header, HasEntry t p ∧ (t.heap p).ip = ip
  nearest : ∀ p ∈ t.nodes.header, ∀ s, ((t.heap p).ip, s) ∈ routes → IsNearestServer t p s

lemma node_eq_of_ip (hg : IsGraph t) {p q : Nat} (hp : p ∈ t.nodes.header) (hq : q ∈ t.nodes.header)
    (h : (t.heap p).ip = (t.heap q).ip) : p = q :=
  List.inj_on_of_nodup_map hg.ips hp hq h

lemma routes_fst {l : List Nat} {routes : List (List UInt8 × List UInt8)}
    (h : List.Forall₂ (IsRoute t) l routes) : routes.map Prod.fst = l.map fun p => (t.heap p).ip := by
  induction h with
  | nil => rfl
  | cons h _ ih => rw [List.map_cons, List.map_cons, ih, h.1]

lemma route_of_mem {l : List Nat} {routes : List (List UInt8 × List UInt8)}
    (h : List.Forall₂ (IsRoute t) l routes) {r : List UInt8 × List UInt8} (hr : r ∈ routes) :
    ∃ p ∈ l, IsRoute t p r := by
  induction h with
  | nil => cases hr
  | cons h _ ih =>
    rcases List.mem_cons.mp hr with rfl | hr
    · exact ⟨_, by simp, h⟩
    · obtain ⟨p, hp, hroute⟩ := ih hr
      exact ⟨p, by simp [hp], hroute⟩

lemma isRoutingTable_of_routes (hg : IsGraph t) {table rest : List RoutingTableEntry}
    {routes : List (List UInt8 × List UInt8)} (htable : table = routes.map entry ++ rest)
    (hroutes : List.Forall₂ (IsRoute t) (t.nodes.header.filter fun p => !skipped t p) routes)
    (hrest : ∀ e ∈ rest, e.serverIp = none) : IsRoutingTable t table routes := by
  have hfst := routes_fst hroutes
  refine ⟨⟨rest, htable, hrest⟩, ?_, fun ip => ?_, fun p hp s hs => ?_⟩
  · rw [hfst]
    exact hg.ips.sublist (List.filter_sublist.map _)
  · rw [hfst]
    simp only [List.mem_map, List.mem_filter, Bool.not_eq_eq_eq_not, Bool.not_true]
    constructor
    · rintro ⟨p, ⟨hp, hskip⟩, hip⟩
      exact ⟨p, hp, (skipped_eq_false_iff hg hp).mp hskip, hip⟩
    · rintro ⟨p, hp, hentry, hip⟩
      exact ⟨p, ⟨hp, (skipped_eq_false_iff hg hp).mpr hentry⟩, hip⟩
  · obtain ⟨q, hq, hip, hnearest⟩ := route_of_mem hroutes hs
    rw [node_eq_of_ip hg hp (List.mem_of_mem_filter hq) hip]
    exact hnearest

/-- With clients, servers and a server on the last node the table is built, and optimal. -/
lemma buildRoutingTable_spec (hg : IsGraph t) (hnum : t.nodes.num = t.nodes.header.length)
    (hclients : t.clients.header ≠ [] ∧ 0 < t.clients.num) (hservers : t.servers.header ≠ [] ∧ 0 < t.servers.num)
    (hnodes : t.nodes.header ≠ []) (hlast : IsListed t (t.nodes.header.getLast hnodes)) :
    ∃ t' table routes, buildRoutingTable t = some (0, t', some table) ∧ IsRoutingTable t table routes := by
  obtain ⟨marks', routes, rest, hrun, hroutes, hrest⟩ := routeLoop_spec hg hservers.1 (fun p hp => hp)
    (fun _ => hlast) (fun p => (t.heap p).visited) [] (List.replicate t.nodes.num ⟨none, none⟩)
    (by rw [List.length_replicate, hnum]) (fun e he => by rw [List.eq_of_mem_replicate he])
  rw [mark_self, List.nil_append, List.nil_append, List.length_nil] at hrun
  have hpos : 0 < t.nodes.num := by
    rw [hnum]
    exact List.length_pos_of_ne_nil hnodes
  have hpre : ¬(t.clients.num ≤ 0 ∨ t.servers.num ≤ 0 ∨ t.nodes.num ≤ 0 ∨ t.nodes.header = [] ∨
      t.servers.header = [] ∨ t.clients.header = []) := by
    simp only [not_or]
    exact ⟨by omega, by omega, by omega, hnodes, hservers.1, hclients.1⟩
  refine ⟨mark t marks', _, routes, ?_, isRoutingTable_of_routes hg rfl hroutes hrest⟩
  rw [buildRoutingTable, if_neg hpre, hrun]
  rfl

/-- On every node graph whose last node is a server, a table that is built has exactly one
entry for each client node and assigns it a server at minimal hop distance, or the first
server when none is reachable. -/
theorem buildRoutingTable_optimal (t : Topo) (hg : IsGraph t) (hnum : t.nodes.num = t.nodes.header.length)
    (hlast : ∀ h : t.nodes.header ≠ [], IsListed t (t.nodes.header.getLast h)) :
    ∃ ret t' table, buildRoutingTable t = some (ret, t', table) ∧
      (ret = 0 → ∃ entries routes, table = some entries ∧ IsRoutingTable t entries routes) := by
  by_cases hpre : t.clients.num ≤ 0 ∨ t.servers.num ≤ 0 ∨ t.nodes.num ≤ 0 ∨ t.nodes.header = [] ∨
      t.servers.header = [] ∨ t.clients.header = []
  · exact ⟨1, t, none, by rw [buildRoutingTable, if_pos hpre], fun h => absurd h (by decide)⟩
  · simp only [not_or, not_le] at hpre
    obtain ⟨hc, hs, -, hn, hsl, hcl⟩ := hpre
    obtain ⟨t', table, routes, hbuild, htable⟩ :=
      buildRoutingTable_spec hg hnum ⟨hcl, hc⟩ ⟨hsl, hs⟩ hn (hlast hn)
    exact ⟨0, t', some table, hbuild, fun _ => ⟨table, routes, rfl, htable⟩⟩

/-- A client, a router and a server in a row. -/
def rowTopo : Topo where
  heap
    | 0 => ⟨bytes "4.0.0.1", [.filled 1], 1, 0, false⟩
    | 1 => ⟨bytes "r1", [.filled 0, .filled 2], 2, 0, false⟩
    | 2 => ⟨bytes "1.0.0.1", [.filled 1], 1, 0, false⟩
    | 3 => ⟨bytes "4.0.0.1", [], 0, -1, false⟩
    | _ => ⟨bytes "1.0.0.1", [], 0, -1, false⟩
  next := 5
  arrays := 3
  clients := ⟨[4], 1⟩
  servers := ⟨[3], 1⟩
  nodes := ⟨[2, 1, 0], 3⟩

lemma rowTopo_isGraph : IsGraph rowTopo := ⟨by decide, by decide, by decide⟩

/-- A table is built for it. -/
theorem buildRoutingTable_optimal_row : ∃ t' entries routes,
    buildRoutingTable rowTopo = some (0, t', some entries) ∧ IsRoutingTable rowTopo entries routes := by
  have hlast : IsListed rowTopo 0 := by decide
  obtain ⟨t₁, table₁, -, hreturns, -⟩ :=
    buildRoutingTable_spec rowTopo_isGraph rfl ⟨by decide, by decide⟩ ⟨by decide, by decide⟩ (by decide) hlast
  obtain ⟨ret, t', table, hbuild, h⟩ := buildRoutingTable_optimal rowTopo rowTopo_isGraph rfl fun _ => hlast
  obtain ⟨rfl, hsame⟩ := Prod.mk.inj (Option.some.inj (hbuild.symm.trans hreturns))
  obtain ⟨entries, routes, rfl, htable⟩ := h rfl
  exact ⟨t', entries, routes, hbuild, htable⟩

end VideoCDN.Nameserver
