import Mathlib.Data.Finset.Dedup
import VideoCDN.Proxy.EventLoop

/-!
# Runs of the event loop

Between the rounds the connections form a doubly linked list, and the watched descriptors are
the listening socket and the sockets of the listed connections. A round handles the listed
connections that are ready, each once and no others, also while connections are taken out of
the list.
-/

namespace VideoCDN.Proxy.EventLoop

open LinkedList

/-! ## What a state says about the list -/

def LoopState.next (s : LoopState) (conn : Nat) : Option Nat := s.heap[conn]?.bind Conn.next

def LoopState.prev (s : LoopState) (conn : Nat) : Option Nat := s.heap[conn]?.bind Conn.prev

/-- The sockets of a connection that are open. -/
def Conn.fds (c : Conn) : List Nat := [c.browserFd, c.serverFd].filter fun fd => fd ≠ 0

def LoopState.fds (s : LoopState) (conn : Nat) : List Nat := (s.heap[conn]?.map Conn.fds).getD []

/-- The socket to the browser, and that to the server. -/
def LoopState.sockets (s : LoopState) (conn : Nat) : Option (Nat × Nat) :=
  s.heap[conn]?.map fun c => (c.browserFd, c.serverFd)

/-- The open sockets of the connections `l`. -/
def LoopState.descriptors (s : LoopState) (l : List Nat) : List Nat := l.flatMap s.fds

/-- A descriptor of the connection is in `ready`. -/
def LoopState.IsReady (s : LoopState) (ready : Finset Nat) (conn : Nat) : Prop :=
  ∃ c, s.heap[conn]? = some c ∧ (c.browserFd ∈ ready ∨ c.serverFd ∈ ready)

/-- Of a connection the handlers of the ready sockets are called, that of the server unless the one of the
browser failed. -/
def LoopState.Calls (s : LoopState) (ready : Finset Nat) (x : Handled) : Prop :=
  ∃ browserFd serverFd, s.sockets x.conn = some (browserFd, serverFd) ∧ (x.browser.isSome ↔ browserFd ∈ ready) ∧
    (x.server.isSome ↔ serverFd ∈ ready ∧ ∀ ret, x.browser = some ret → 0 ≤ ret)

/-- The watched descriptors are open and below `fd_max`. -/
structure Watching (s : LoopState) : Prop where
  below : ∀ fd ∈ s.config.ready, fd < s.config.fdMax
  held : s.config.ready ⊆ s.held

/-- The listed connections are `l`. -/
structure LoopInv (sock : Nat) (s : LoopState) (l : List Nat) : Prop extends Watching s where
  linked : Linked s.next s.prev none s.config.listConn l
  alloc : ∀ conn ∈ l, conn < s.heap.length
  nodup : (sock :: s.descriptors l).Nodup
  watched : s.config.ready = (sock :: s.descriptors l).toFinset
  nonzero : sock ≠ 0

lemma Conn.zero_notMem_fds (c : Conn) : 0 ∉ c.fds := by
  simp [Conn.fds]

lemma LoopState.zero_notMem_descriptors (s : LoopState) (l : List Nat) : 0 ∉ s.descriptors l := by
  intro h
  obtain ⟨conn, -, h⟩ := List.mem_flatMap.mp h
  unfold LoopState.fds at h
  cases hc : s.heap[conn]? with
  | none =>
    rw [hc] at h
    exact absurd h (List.not_mem_nil)
  | some c =>
    rw [hc] at h
    exact c.zero_notMem_fds h

lemma LoopInv.zero_notMem {sock : Nat} {s : LoopState} {l : List Nat} (h : LoopInv sock s l) :
    0 ∉ s.config.ready := by
  rw [h.watched, List.mem_toFinset, List.mem_cons]
  rintro (h0 | h0)
  · exact h.nonzero h0.symm
  · exact s.zero_notMem_descriptors l h0

lemma LoopState.fds_congr {s s' : LoopState} {conn : Nat} (h : s'.sockets conn = s.sockets conn) :
    s'.fds conn = s.fds conn := by
  have hfds : ∀ s : LoopState, s.fds conn =
      ((s.sockets conn).map fun fds => [fds.1, fds.2].filter fun fd => fd ≠ 0).getD [] := by
    intro s
    rw [LoopState.fds, LoopState.sockets, Option.map_map]
    rfl
  rw [hfds, hfds, h]

lemma LoopState.Calls.congr {s s' : LoopState} {ready : Finset Nat} {x : Handled}
    (h : s'.sockets x.conn = s.sockets x.conn) (hcalls : s'.Calls ready x) : s.Calls ready x := by
  unfold LoopState.Calls
  rw [← h]
  exact hcalls

lemma LoopState.descriptors_congr {s s' : LoopState} {l : List Nat} (h : ∀ conn ∈ l, s'.fds conn = s.fds conn) :
    s'.descriptors l = s.descriptors l :=
  List.flatMap_congr h

/-! ## A connection is closed -/

lemma LoopState.update_eq {s : LoopState} {conn : Nat} (f : Conn → Conn) (h : conn < s.heap.length) :
    s.update conn f = some { s with heap := s.heap.mapIdx fun x d => if conn = x then f d else d } := by
  have hheap : s.heap.modify conn f = s.heap.mapIdx fun x d => if conn = x then f d else d := by
    apply List.ext_getElem?
    intro x
    rw [List.getElem?_modify, List.getElem?_mapIdx]
    rfl
  rw [LoopState.update, if_pos h, hheap]

lemma LoopState.updateIf_eq {s : LoopState} {ptr : Option Nat} (f : Conn → Conn)
    (h : ∀ conn, ptr = some conn → conn < s.heap.length) :
    s.updateIf ptr f = some { s with heap := s.heap.mapIdx fun x d => if ptr = some x then f d else d } := by
  cases ptr with
  | none =>
    have hheap : s.heap.mapIdx (fun _ d => d) = s.heap := by
      apply List.ext_getElem?
      intro x
      simp
    simp [LoopState.updateIf, hheap]
  | some conn =>
    rw [LoopState.updateIf, LoopState.update_eq f (h conn rfl)]
    simp

lemma proxyRemoveConn_eq {s : LoopState} {conn : Nat} {c : Conn} (hc : s.heap[conn]? = some c)
    (hprev : ∀ p, c.prev = some p → p < s.heap.length) (hnext : ∀ n, c.next = some n → n < s.heap.length) :
    proxyRemoveConn s conn = some { s with
      config := { s.config with listConn := if c.prev = none then c.next else s.config.listConn }
      heap := s.heap.mapIdx fun x d => { d with
        prev := if c.next = some x then c.prev else d.prev
        next := if c.prev = some x then c.next else d.next } } := by
  have hfirst := LoopState.updateIf_eq (fun d => { d with next := c.next }) hprev
  have hsecond : ∀ h' : List Conn, h'.length = s.heap.length →
      LoopState.updateIf { s with heap := h' } c.next (fun d => { d with prev := c.prev }) =
        some { s with heap := h'.mapIdx fun x d => if c.next = some x then { d with prev := c.prev } else d } :=
    fun h' hlen => LoopState.updateIf_eq _ (fun n hn => hlen ▸ hnext n hn)
  have hheap : ∀ x d, (if c.next = some x then
        { (if c.prev = some x then { d with next := c.next } else d : Conn) with prev := c.prev }
      else if c.prev = some x then { d with next := c.next } else d) =
      { d with
        prev := if c.next = some x then c.prev else d.prev
        next := if c.prev = some x then c.next else d.next } := by
    intro x d
    split <;> split <;> rfl
  simp only [proxyRemoveConn, hc, hfirst, Option.bind_eq_bind, Option.bind_some]
  rw [hsecond _ (List.length_mapIdx), Option.bind_some, List.mapIdx_mapIdx]
  simp only [Function.comp_def, hheap]
  split <;> rfl

lemma LoopState.closeFd_eq {s : LoopState} {conn : Nat} (fd : Nat) (clear : Conn → Conn)
    (hlt : conn < s.heap.length) (hclear : fd = 0 → ∀ d, s.heap[conn]? = some d → clear d = d) :
    s.closeFd conn fd clear = some {
      config := { s.config with ready := s.config.ready \ ([fd].filter fun fd => fd ≠ 0).toFinset }
      heap := s.heap.mapIdx fun x d => if conn = x then clear d else d
      held := s.held \ ([fd].filter fun fd => fd ≠ 0).toFinset } := by
  by_cases hfd : fd = 0
  · have hheap : s.heap.mapIdx (fun x d => if conn = x then clear d else d) = s.heap := by
      apply List.ext_getElem?
      intro x
      rw [List.getElem?_mapIdx]
      cases hx : s.heap[x]? with
      | none => rfl
      | some d =>
        rw [Option.map_some]
        split
        · rename_i heq
          subst heq
          rw [hclear hfd d hx]
        · rfl
    simp [LoopState.closeFd, hfd, hheap]
  · rw [LoopState.closeFd, if_pos hfd, LoopState.update_eq clear (by exact hlt)]
    simp [LoopState.release, hfd, Finset.sdiff_singleton_eq_erase]

/-- What closing `c`, which is at `conn`, leaves of the connection `d` at `x`. -/
def Conn.afterClose (c : Conn) (conn x : Nat) (d : Conn) : Conn where
  browserFd := if conn = x then 0 else d.browserFd
  serverFd := if conn = x then 0 else d.serverFd
  prev := if c.next = some x then c.prev else d.prev
  next := if c.prev = some x then c.next else d.next

lemma proxyConnClose_eq {s : LoopState} {conn : Nat} {c : Conn} (hc : s.heap[conn]? = some c)
    (hprev : ∀ p, c.prev = some p → p < s.heap.length) (hnext : ∀ n, c.next = some n → n < s.heap.length) :
    proxyConnClose s conn = some {
      config := {
        ready := s.config.ready \ c.fds.toFinset
        fdMax := s.config.fdMax
        listConn := if c.prev = none then c.next else s.config.listConn }
      heap := s.heap.mapIdx (c.afterClose conn)
      held := s.held \ c.fds.toFinset } := by
  have hlt : conn < s.heap.length := (List.getElem?_eq_some_iff.mp hc).1
  have hbrowser := s.closeFd_eq c.browserFd (fun d => { d with browserFd := 0 }) hlt (by
    intro h0 d hd
    obtain rfl := Option.some.inj (hc.symm.trans hd)
    rw [← h0])
  have hfds : c.fds = [c.browserFd].filter (fun fd => fd ≠ 0) ++ [c.serverFd].filter (fun fd => fd ≠ 0) := by
    rw [← List.filter_append]
    rfl
  simp only [proxyConnClose, hc, Option.bind_eq_bind, Option.bind_some, hbrowser]
  rw [LoopState.closeFd_eq, Option.bind_some, proxyRemoveConn_eq (c := { c with browserFd := 0, serverFd := 0 })]
  · simp only [List.mapIdx_mapIdx, hfds, List.toFinset_append, sdiff_sdiff, Finset.sup_eq_union]
    congr 2
    apply List.ext_getElem?
    intro x
    simp only [List.getElem?_mapIdx]
    congr 1
    funext d
    by_cases hx : conn = x
    · simp [Conn.afterClose, hx]
    · simp [Conn.afterClose, hx]
  · simp [hc]
  · simpa using hprev
  · simpa using hnext
  · rw [List.length_mapIdx]
    exact hlt
  · intro h0 d hd
    rw [List.getElem?_mapIdx, hc, Option.map_some, if_pos rfl] at hd
    obtain rfl := Option.some.inj hd
    rw [← h0]

lemma LoopInv.mem_heap {sock : Nat} {s : LoopState} {l : List Nat} (h : LoopInv sock s l) {conn : Nat}
    (hconn : conn ∈ l) : ∃ c, s.heap[conn]? = some c :=
  ⟨_, List.getElem?_eq_getElem (h.alloc conn hconn)⟩

lemma LoopState.sdiff_descriptors {s : LoopState} {sock conn : Nat} {l₁ l₂ : List Nat}
    (h : (sock :: s.descriptors (l₁ ++ conn :: l₂)).Nodup) :
    (sock :: s.descriptors (l₁ ++ conn :: l₂)).toFinset \ (s.fds conn).toFinset =
      (sock :: s.descriptors (l₁ ++ l₂)).toFinset := by
  have hall : sock :: s.descriptors (l₁ ++ conn :: l₂) =
      (sock :: s.descriptors l₁) ++ (s.fds conn ++ s.descriptors l₂) := by
    simp [LoopState.descriptors]
  have hothers : sock :: s.descriptors (l₁ ++ l₂) = (sock :: s.descriptors l₁) ++ s.descriptors l₂ := by
    simp [LoopState.descriptors]
  rw [hall] at h
  have hbefore := List.disjoint_of_nodup_append h
  have hbehind := List.disjoint_of_nodup_append (List.nodup_append.mp h).2.1
  rw [hall, hothers]
  ext fd
  simp only [Finset.mem_sdiff, List.mem_toFinset, List.mem_append]
  constructor
  · tauto
  · rintro (hfd | hfd)
    · exact ⟨Or.inl hfd, fun hmem => hbefore hfd (List.mem_append_left _ hmem)⟩
    · exact ⟨Or.inr (Or.inr hfd), fun hmem => hbehind hmem hfd⟩

/-- What closing a listed connection leaves: the list without it, and its `next` as before. -/
lemma LoopInv.close {sock : Nat} {s : LoopState} {l₁ l₂ : List Nat} {conn : Nat}
    (h : LoopInv sock s (l₁ ++ conn :: l₂)) :
    ∃ s', proxyConnClose s conn = some s' ∧ LoopInv sock s' (l₁ ++ l₂) ∧
      (∃ c', s'.heap[conn]? = some c' ∧ c'.next = s.next conn) ∧
      (∀ x ∈ l₂, s'.next x = s.next x) ∧ (∀ x, x ≠ conn → s'.sockets x = s.sockets x) := by
  obtain ⟨c, hc⟩ := h.mem_heap (List.mem_append_right l₁ List.mem_cons_self)
  obtain ⟨hprev, hnext⟩ := h.linked.links
  have hprevC : s.prev conn = c.prev := by simp [LoopState.prev, hc]
  have hnextC : s.next conn = c.next := by simp [LoopState.next, hc]
  have hfdsC : s.fds conn = c.fds := by simp [LoopState.fds, hc]
  obtain ⟨hconn, hrest⟩ := List.nodup_cons.mp (List.nodup_middle.mp h.linked.nodup)
  have hprevMem : ∀ p, c.prev = some p → p ∈ l₁ := by
    intro p hp
    rw [hprevC, Option.or_none, hp] at hprev
    exact List.mem_of_getLast? hprev.symm
  have hnextMem : ∀ n, c.next = some n → n ∈ l₂ := by
    intro n hn
    rw [hnextC, hn] at hnext
    exact List.mem_of_head? hnext.symm
  have halloc : ∀ x ∈ l₁ ++ l₂, x < s.heap.length := fun x hx =>
    h.alloc x (List.perm_middle.symm.subset (List.mem_cons_of_mem conn hx))
  have hclose := proxyConnClose_eq hc (fun p hp => halloc p (List.mem_append_left l₂ (hprevMem p hp)))
    (fun n hn => halloc n (List.mem_append_right l₁ (hnextMem n hn)))
  obtain ⟨s', hs', hready, hmax, hlist, hheld, hheap⟩ : ∃ s', proxyConnClose s conn = some s' ∧
      s'.config.ready = s.config.ready \ (s.fds conn).toFinset ∧ s'.config.fdMax = s.config.fdMax ∧
      s'.config.listConn = (if s.prev conn = none then s.next conn else s.config.listConn) ∧
      s'.held = s.held \ (s.fds conn).toFinset ∧ s'.heap = s.heap.mapIdx (c.afterClose conn) := by
    rw [hprevC, hnextC, hfdsC]
    exact ⟨_, hclose, rfl, rfl, rfl, rfl, rfl⟩
  have hlinks : ∀ x, x < s.heap.length → s'.next x = (if s.prev conn = some x then s.next conn else s.next x) ∧
      s'.prev x = (if s.next conn = some x then s.prev conn else s.prev x) := by
    intro x hx
    rw [hprevC, hnextC]
    simp [LoopState.next, LoopState.prev, hheap, hx, Conn.afterClose]
  have hsockets : ∀ x, x ≠ conn → s'.sockets x = s.sockets x := by
    intro x hx
    rw [LoopState.sockets, LoopState.sockets, hheap, List.getElem?_mapIdx, Option.map_map]
    congr 1
    funext d
    simp [Conn.afterClose, hx.symm]
  have hdescriptors : s'.descriptors (l₁ ++ l₂) = s.descriptors (l₁ ++ l₂) :=
    LoopState.descriptors_congr fun x hx => LoopState.fds_congr (hsockets x fun heq => hconn (heq ▸ hx))
  have hsub : s'.config.ready ⊆ s.config.ready := by
    rw [hready]
    exact Finset.sdiff_subset
  refine ⟨s', hs', ⟨⟨?_, ?_⟩, ?_, ?_, ?_, ?_, h.nonzero⟩, ?_, ?_, hsockets⟩
  · rw [hmax]
    exact fun fd hfd => h.below fd (hsub hfd)
  · rw [hready, hheld]
    exact Finset.sdiff_subset_sdiff h.held (Finset.Subset.refl _)
  · rw [hlist]
    apply h.linked.remove
    · exact fun x _ => (Option.some_ne_none x).symm
    · exact fun x hx => (hlinks x (halloc x hx)).1
    · exact fun x hx => (hlinks x (halloc x hx)).2
  · rw [hheap, List.length_mapIdx]
    exact halloc
  · rw [hdescriptors]
    refine List.Nodup.sublist ?_ h.nodup
    rw [LoopState.descriptors, LoopState.descriptors, List.flatMap_append, List.flatMap_append, List.flatMap_cons]
    apply List.Sublist.cons_cons
    apply List.Sublist.append_left
    exact List.sublist_append_right _ _
  · rw [hready, hdescriptors, h.watched]
    exact LoopState.sdiff_descriptors h.nodup
  · refine ⟨c.afterClose conn conn c, ?_, ?_⟩
    · rw [hheap, List.getElem?_mapIdx, hc]
      rfl
    · have hself : c.prev ≠ some conn := fun heq => hconn (List.mem_append_left l₂ (hprevMem conn heq))
      rw [hnextC]
      exact if_neg hself
  · intro x hx
    rw [(hlinks x (halloc x (List.mem_append_right l₁ hx))).1, if_neg]
    rw [hprevC]
    exact fun heq => (List.nodup_append.mp hrest).2.2 x (hprevMem x heq) x hx rfl

/-! ## A connection is accepted -/

lemma LoopState.update_last {s : LoopState} {h : List Conn} {c : Conn} (hheap : s.heap = h ++ [c])
    (f : Conn → Conn) : s.update h.length f = some { s with heap := h ++ [f c] } := by
  have hlt : h.length < s.heap.length := by
    rw [hheap, List.length_append]
    exact Nat.lt_succ_self _
  have hmodify : s.heap.modify h.length f = h ++ [f c] := by
    rw [hheap, List.modify_eq_take_drop]
    simp
  rw [LoopState.update, if_pos hlt, hmodify]

lemma Watching.watch {s : LoopState} (h : Watching s) {fd : Nat} (hlt : fd < fdSetSize) (hheld : fd ∈ s.held) :
    ∃ s', s.watch fd = some s' ∧ Watching s' ∧ s'.config.ready = insert fd s.config.ready ∧
      s'.config.listConn = s.config.listConn ∧ s'.heap = s.heap ∧ s'.held = s.held := by
  refine ⟨_, if_pos hlt, ⟨?_, ?_⟩, rfl, rfl, rfl, rfl⟩
  · intro x hx
    rcases Finset.mem_insert.mp hx with rfl | hx
    · simp only
      split <;> omega
    · have hmax := h.below x hx
      simp only
      split <;> omega
  · intro x hx
    rcases Finset.mem_insert.mp hx with rfl | hx
    · exact hheld
    · exact h.held hx

/-- The last connection allocated is connected to the server, or keeps zero for its socket. -/
lemma proxyConnectServer_spec {s : LoopState} {h : List Conn} {c : Conn} (hheap : s.heap = h ++ [c])
    (hc : c.serverFd = 0) (server : ServerSocket) (hfresh : ∀ sock, server.fd = some sock → Fresh s.held sock)
    (hwatch : Watching s) :
    ∃ s' serverFd, proxyConnectServer s h.length server = some s' ∧ Watching s' ∧
      s'.heap = h ++ [{ c with serverFd := serverFd }] ∧ s'.config.listConn = s.config.listConn ∧
      s'.config.ready = s.config.ready ∪ ([serverFd].filter fun fd => fd ≠ 0).toFinset ∧
      s.held ⊆ s'.held ∧ (serverFd ≠ 0 → Fresh s.held serverFd) := by
  have hsame : c = { c with serverFd := 0 } := by
    rw [← hc]
  -- A socket that could not be bound or connected is closed again.
  have hclosed : ∀ sock, Fresh s.held sock →
      ∃ s' serverFd, some { s with held := (insert sock s.held).erase sock } = some s' ∧ Watching s' ∧
        s'.heap = h ++ [{ c with serverFd := serverFd }] ∧ s'.config.listConn = s.config.listConn ∧
        s'.config.ready = s.config.ready ∪ ([serverFd].filter fun fd => fd ≠ 0).toFinset ∧
        s.held ⊆ s'.held ∧ (serverFd ≠ 0 → Fresh s.held serverFd) := by
    intro sock hsock
    rw [Finset.erase_insert hsock.unused]
    refine ⟨s, 0, rfl, hwatch, ?_, rfl, by simp, Finset.Subset.refl _, fun h0 => absurd rfl h0⟩
    rw [hheap, ← hsame]
  cases server with
  | noSocket =>
    refine ⟨s, 0, rfl, hwatch, ?_, rfl, by simp, Finset.Subset.refl _, fun h0 => absurd rfl h0⟩
    rw [hheap, ← hsame]
  | noBind sock => exact hclosed sock (hfresh sock rfl)
  | noConnect sock => exact hclosed sock (hfresh sock rfl)
  | connected sock =>
    have hsock := hfresh sock rfl
    have hnew : Watching { s with held := insert sock s.held } :=
      ⟨hwatch.below, hwatch.held.trans (Finset.subset_insert sock s.held)⟩
    have hheldSock := Finset.mem_insert_self sock s.held
    obtain ⟨s', hs', hwatch', hready, hlist, hheap', hheld⟩ := hnew.watch hsock.lt hheldSock
    have hupdate := LoopState.update_last (hheap'.trans hheap) (fun c => { c with serverFd := sock })
    refine ⟨{ s' with heap := h ++ [{ c with serverFd := sock }] }, sock, ?_, ⟨hwatch'.below, hwatch'.held⟩, rfl,
      hlist, ?_, ?_, fun _ => hsock⟩
    · rw [proxyConnectServer, hs']
      exact hupdate
    · have hfds : ([sock].filter fun fd => fd ≠ 0).toFinset = {sock} := by
        simp [hsock.ne_zero]
      rw [hfds, Finset.union_comm, ← Finset.insert_eq]
      exact hready
    · rw [hheld]
      exact Finset.subset_insert sock s.held

lemma proxyInsertConn_eq {s : LoopState} {h : List Conn} {c : Conn} {server : ServerSocket} {s' : LoopState}
    (hconnect : proxyConnectServer s h.length server = some s') (hheap : s'.heap = h ++ [c])
    (hfirst : ∀ first, s'.config.listConn = some first → first < h.length) :
    proxyInsertConn s h.length server = some { s' with
      config := { s'.config with listConn := some h.length }
      heap := (h ++ [{ c with next := s'.config.listConn }]).mapIdx fun x (d : Conn) =>
        if s'.config.listConn = some x then { d with prev := some h.length } else d } := by
  simp only [proxyInsertConn, hconnect, Option.bind_eq_bind, Option.bind_some]
  rw [LoopState.update_last (by exact hheap), Option.bind_some, LoopState.updateIf_eq]
  intro first hlist
  rw [List.length_append]
  exact (hfirst first hlist).trans (Nat.lt_succ_self _)

/-- A connection with new sockets was put in front of the list. -/
structure Opened (s s' : LoopState) (browserSock serverFd : Nat) : Prop where
  listConn : s'.config.listConn = some s.heap.length
  heap : s'.heap = (s.heap ++ [(⟨browserSock, serverFd, none, s.config.listConn⟩ : Conn)]).mapIdx fun x (d : Conn) =>
    if s.config.listConn = some x then { d with prev := some s.heap.length } else d
  ready : s'.config.ready = insert browserSock s.config.ready ∪ ([serverFd].filter fun fd => fd ≠ 0).toFinset
  browser : Fresh s.held browserSock
  server : serverFd ≠ 0 → Fresh (insert browserSock s.held) serverFd

lemma proxyConnCreate_spec {s : LoopState} {browserSock : Nat} {server : ServerSocket} (hwatch : Watching s)
    (hfirst : ∀ first, s.config.listConn = some first → first < s.heap.length)
    (hbrowser : Fresh s.held browserSock)
    (hsocket : ∀ sock, server.fd = some sock → Fresh (insert browserSock s.held) sock) :
    ∃ s' serverFd, proxyConnCreate { s with heap := s.heap ++ [proxyConnInit] } s.heap.length (some browserSock)
      server = some s' ∧ Watching s' ∧ Opened s s' browserSock serverFd := by
  have hnew : Watching { s with
      heap := s.heap ++ [⟨browserSock, 0, none, none⟩], held := insert browserSock s.held } :=
    ⟨hwatch.below, hwatch.held.trans (Finset.subset_insert browserSock s.held)⟩
  obtain ⟨s₁, hs₁, hwatch₁, hready₁, hlist₁, hheap₁, hheld₁⟩ :=
    hnew.watch hbrowser.lt (Finset.mem_insert_self browserSock s.held)
  obtain ⟨s₂, serverFd, hs₂, hwatch₂, hheap₂, hlist₂, hready₂, -, hserver⟩ :=
    proxyConnectServer_spec hheap₁ rfl server (by rw [hheld₁]; exact hsocket) hwatch₁
  have hlist : s₂.config.listConn = s.config.listConn := hlist₂.trans hlist₁
  have hinsert := proxyInsertConn_eq hs₂ hheap₂ (by rw [hlist]; exact hfirst)
  rw [hlist] at hinsert
  have hcreate : proxyConnCreate { s with heap := s.heap ++ [proxyConnInit] } s.heap.length (some browserSock)
      server = proxyInsertConn s₁ s.heap.length server := by
    simp only [proxyConnCreate, Option.bind_eq_bind]
    rw [LoopState.update_last rfl, Option.bind_some]
    exact congrArg (fun o => Option.bind o _) hs₁
  rw [hcreate, hinsert]
  refine ⟨_, serverFd, rfl, ⟨hwatch₂.below, hwatch₂.held⟩, rfl, rfl, ?_, hbrowser, ?_⟩
  · rw [← hready₁]
    exact hready₂
  · rw [hheld₁] at hserver
    exact hserver

lemma LoopInv.frame {sock : Nat} {s s' : LoopState} {l : List Nat} (h : LoopInv sock s l)
    (hconfig : s'.config = s.config) (hheld : s.held ⊆ s'.held)
    (hheap : ∀ x ∈ l, s'.heap[x]? = s.heap[x]?) : LoopInv sock s' l := by
  have hdescriptors : s'.descriptors l = s.descriptors l :=
    LoopState.descriptors_congr fun x hx => LoopState.fds_congr <| by
      rw [LoopState.sockets, LoopState.sockets, hheap x hx]
  refine ⟨⟨?_, ?_⟩, ?_, ?_, ?_, ?_, h.nonzero⟩
  · rw [hconfig]
    exact h.below
  · rw [hconfig]
    exact h.held.trans hheld
  · rw [hconfig]
    apply h.linked.congr
    · exact fun x hx => by rw [LoopState.next, LoopState.next, hheap x hx]
    · exact fun x hx => by rw [LoopState.prev, LoopState.prev, hheap x hx]
  · intro x hx
    obtain ⟨c, hc⟩ := h.mem_heap hx
    rw [← hheap x hx] at hc
    exact (List.getElem?_eq_some_iff.mp hc).1
  · rw [hdescriptors]
    exact h.nodup
  · rw [hconfig, hdescriptors]
    exact h.watched

lemma LoopInv.first_lt {sock : Nat} {s : LoopState} {l : List Nat} (h : LoopInv sock s l) {first : Nat}
    (hfirst : s.config.listConn = some first) : first < s.heap.length := by
  rw [h.linked.head_eq] at hfirst
  exact h.alloc first (List.mem_of_head? hfirst)

namespace Opened

variable {sock browserSock serverFd : Nat} {s s' : LoopState} {l : List Nat} (O : Opened s s' browserSock serverFd)
  (h : LoopInv sock s l)

include O h

lemma getElem?_new : s'.heap[s.heap.length]? = some ⟨browserSock, serverFd, none, s.config.listConn⟩ := by
  have hne : s.config.listConn ≠ some s.heap.length := fun heq => Nat.lt_irrefl _ (h.first_lt heq)
  rw [O.heap, List.getElem?_mapIdx, List.getElem?_concat_length, Option.map_some, if_neg hne]

/-- Of the other connections only the link back of the first one is changed. -/
lemma getElem?_old {x : Nat} (hx : x ∈ l) : s'.heap[x]? = s.heap[x]?.map fun d =>
    if s.config.listConn = some x then { d with prev := some s.heap.length } else d := by
  rw [O.heap, List.getElem?_mapIdx, List.getElem?_append_left (h.alloc x hx)]

lemma sockets_old {x : Nat} (hx : x ∈ l) : s'.sockets x = s.sockets x := by
  rw [LoopState.sockets, LoopState.sockets, O.getElem?_old h hx, Option.map_map]
  congr 1
  funext d
  simp only [Function.comp_apply]
  split <;> rfl

lemma fds_new : s'.fds s.heap.length = [browserSock, serverFd].filter fun fd => fd ≠ 0 := by
  simp [LoopState.fds, O.getElem?_new h, Conn.fds]

lemma descriptors_cons : s'.descriptors (s.heap.length :: l) = s'.fds s.heap.length ++ s.descriptors l := by
  rw [LoopState.descriptors, List.flatMap_cons]
  congr 1
  exact LoopState.descriptors_congr fun x hx => LoopState.fds_congr (O.sockets_old h hx)

lemma notMem_held {fd : Nat} (hfd : fd ∈ s'.fds s.heap.length) : fd ∉ s.held := by
  rw [O.fds_new h] at hfd
  obtain ⟨hmem, hne⟩ := List.mem_filter.mp hfd
  rcases List.mem_pair.mp hmem with rfl | rfl
  · exact O.browser.unused
  · intro hheld
    exact (O.server (of_decide_eq_true hne)).unused (Finset.mem_insert_of_mem hheld)

lemma linked : Linked s'.next s'.prev none s'.config.listConn (s.heap.length :: l) := by
  rw [O.listConn]
  apply h.linked.cons
  · rw [LoopState.next, O.getElem?_new h]
    rfl
  · rw [LoopState.prev, O.getElem?_new h]
    rfl
  · intro x hx
    obtain ⟨c, hc⟩ := h.mem_heap hx
    rw [LoopState.next, LoopState.next, O.getElem?_old h hx, hc, Option.map_some]
    split <;> rfl
  · intro x hx
    obtain ⟨c, hc⟩ := h.mem_heap hx
    rw [LoopState.prev, LoopState.prev, O.getElem?_old h hx, hc, Option.map_some]
    split <;> rfl

lemma nodup : (sock :: s'.descriptors (s.heap.length :: l)).Nodup := by
  rw [O.descriptors_cons h, List.perm_middle.symm.nodup_iff]
  apply List.Nodup.append
  · rw [O.fds_new h]
    by_cases hs : serverFd = 0
    · simp [hs, O.browser.ne_zero]
    · have hne : browserSock ≠ serverFd := fun heq =>
        (O.server hs).unused (heq ▸ Finset.mem_insert_self browserSock s.held)
      simp [hs, O.browser.ne_zero, hne]
  · exact h.nodup
  · intro fd hfd hold
    apply O.notMem_held h hfd
    apply h.held
    rw [h.watched]
    exact List.mem_toFinset.mpr hold

lemma inv (hwatch : Watching s') : LoopInv sock s' (s.heap.length :: l) := by
  refine ⟨hwatch, O.linked h, fun x hx => ?_, O.nodup h, ?_, h.nonzero⟩
  · rw [O.heap, List.length_mapIdx, List.length_append]
    rcases List.mem_cons.mp hx with rfl | hx
    · exact Nat.lt_succ_self _
    · exact (h.alloc x hx).trans (Nat.lt_succ_self _)
  · rw [O.ready, O.descriptors_cons h, O.fds_new h, h.watched]
    ext fd
    simp [O.browser.ne_zero]
    tauto

end Opened

/-- Accepting a connection leaves the list, or puts one with new sockets in front of it. -/
lemma LoopInv.create {sock : Nat} {s : LoopState} {l : List Nat} (h : LoopInv sock s l) (accept : Option Nat)
    (server : ServerSocket) (haccept : ∀ fd, accept = some fd → Fresh s.held fd)
    (hsocket : ∀ fd, accept = some fd → ∀ sock, server.fd = some sock → Fresh (insert fd s.held) sock) :
    ∃ s' l', proxyConnCreate { s with heap := s.heap ++ [proxyConnInit] } s.heap.length accept server = some s' ∧
      LoopInv sock s' l' ∧ (l' = l ∨ l' = s.heap.length :: l ∧ ∀ fd ∈ s'.fds s.heap.length, fd ∉ s.held) ∧
      (∀ x ∈ l, s'.sockets x = s.sockets x) := by
  cases accept with
  | none =>
    have hheap : ∀ x ∈ l, (s.heap ++ [proxyConnInit])[x]? = s.heap[x]? := fun x hx =>
      List.getElem?_append_left (h.alloc x hx)
    refine ⟨_, l, rfl, h.frame rfl (Finset.Subset.refl _) hheap, Or.inl rfl, ?_⟩
    intro x hx
    rw [LoopState.sockets, LoopState.sockets, hheap x hx]
  | some browserSock =>
    have hbrowser := haccept browserSock rfl
    obtain ⟨s', serverFd, hs', hwatch, O⟩ :=
      proxyConnCreate_spec h.toWatching (fun first => h.first_lt) hbrowser (hsocket browserSock rfl)
    exact ⟨s', s.heap.length :: l, hs', O.inv h hwatch, Or.inr ⟨rfl, fun fd => O.notMem_held h⟩,
      fun x => O.sockets_old h⟩

/-! ## The walk of a round -/

/-- A socket of the connection is in `ready`. -/
def LoopState.hasReady (s : LoopState) (ready : Finset Nat) (conn : Nat) : Bool :=
  (s.fds conn).any fun fd => fd ∈ ready

/-- How many sockets of the connections `l` are in `ready`. -/
def LoopState.readyCount (s : LoopState) (ready : Finset Nat) (l : List Nat) : Nat :=
  (s.descriptors l).countP fun fd => fd ∈ ready

lemma Conn.any_fds (c : Conn) {ready : Finset Nat} (h0 : 0 ∉ ready) :
    (c.fds.any fun fd => fd ∈ ready) = (decide (c.browserFd ∈ ready) || decide (c.serverFd ∈ ready)) := by
  by_cases hb : c.browserFd = 0 <;> by_cases hs : c.serverFd = 0 <;> simp [Conn.fds, hb, hs, h0]

lemma Conn.countP_fds (c : Conn) {ready : Finset Nat} (h0 : 0 ∉ ready) :
    (c.fds.countP fun fd => fd ∈ ready) =
      (decide (c.browserFd ∈ ready)).toNat + (decide (c.serverFd ∈ ready)).toNat := by
  by_cases hb : c.browserFd = 0 <;> by_cases hs : c.serverFd = 0 <;>
    by_cases hbr : c.browserFd ∈ ready <;> by_cases hsr : c.serverFd ∈ ready <;> simp_all [Conn.fds]

lemma LoopState.hasReady_congr {s s' : LoopState} {ready : Finset Nat} {l : List Nat}
    (h : ∀ x ∈ l, s'.fds x = s.fds x) : l.filter (s'.hasReady ready) = l.filter (s.hasReady ready) := by
  apply List.filter_congr
  intro x hx
  rw [LoopState.hasReady, LoopState.hasReady, h x hx]

/-- No socket is ready exactly if none is counted. -/
lemma LoopState.filter_hasReady_eq_nil {s : LoopState} {ready : Finset Nat} {l : List Nat}
    (h : s.readyCount ready l = 0) : l.filter (s.hasReady ready) = [] := by
  rw [LoopState.readyCount, List.countP_eq_zero] at h
  rw [List.filter_eq_nil_iff]
  intro x hx hready
  obtain ⟨fd, hfd, hmem⟩ := List.any_eq_true.mp hready
  exact h fd (List.mem_flatMap.mpr ⟨x, hx, hfd⟩) hmem

/-- The handlers that a call of `proxy_handle_conn` calls. -/
lemma proxyHandleConn_calls {s : LoopState} (ready : Finset Nat) {conn : Nat} {c : Conn}
    (hc : s.heap[conn]? = some c) (handlerBrowser handlerServer : Int) :
    (proxyHandleConn conn handlerBrowser handlerServer (decide (c.browserFd ∈ ready))
        (decide (c.serverFd ∈ ready))).2.conn = conn ∧
      s.Calls ready (proxyHandleConn conn handlerBrowser handlerServer (decide (c.browserFd ∈ ready))
        (decide (c.serverFd ∈ ready))).2 := by
  have hsockets : s.sockets conn = some (c.browserFd, c.serverFd) := by
    rw [LoopState.sockets, hc]
    rfl
  unfold proxyHandleConn
  split
  · rename_i hfailed
    refine ⟨rfl, _, _, hsockets, by simpa using hfailed.1, ?_⟩
    simp only [Option.isSome_none, Bool.false_eq_true, Option.some.injEq, forall_eq', false_iff, not_and, not_le]
    exact fun _ => hfailed.2
  · rename_i hpassed
    have hsome : (if decide (c.browserFd ∈ ready) = true then some handlerBrowser else none).isSome ↔
        c.browserFd ∈ ready := by
      simp
    have hpassed' : ∀ ret, (if decide (c.browserFd ∈ ready) = true then some handlerBrowser else none) = some ret →
        0 ≤ ret := by
      intro ret hret
      split at hret
      · rename_i hbrowser
        obtain rfl := Option.some.inj hret
        exact not_lt.mp fun hlt => hpassed ⟨hbrowser, hlt⟩
      · cases hret
    generalize (if decide (c.browserFd ∈ ready) = true then some handlerBrowser else none) = called
      at hsome hpassed' ⊢
    dsimp only
    by_cases hfailed : decide (c.serverFd ∈ ready) = true ∧ handlerServer < 0
    · rw [if_pos hfailed]
      exact ⟨rfl, _, _, hsockets, hsome, by simpa [of_decide_eq_true hfailed.1] using hpassed'⟩
    · rw [if_neg hfailed]
      exact ⟨rfl, _, _, hsockets, hsome, by simpa using fun _ => hpassed'⟩

/-- What a walk from `s` over `rest` results in: behind the calls before, those for the connections of `rest`
that have a ready socket. -/
def Walked (sock : Nat) (ready : Finset Nat) (s : LoopState) (rest : List Nat) (handled : List Handled)
    (result : Option (LoopState × List Handled)) : Prop :=
  ∃ s' l' calls, result = some (s', handled ++ calls) ∧ calls.map Handled.conn = rest.filter (s.hasReady ready) ∧
    (∀ x ∈ calls, s.Calls ready x) ∧ LoopInv sock s' l'

lemma walked_nil {sock : Nat} {ready : Finset Nat} {s : LoopState} {l rest : List Nat} (h : LoopInv sock s l)
    (hrest : rest.filter (s.hasReady ready) = []) (handled : List Handled) :
    Walked sock ready s rest handled (some (s, handled)) :=
  ⟨s, l, [], by rw [List.append_nil], hrest.symm, fun _ hx => (List.not_mem_nil hx).elim, h⟩

/-- A connection was handled, which left the sockets of the others. -/
lemma Walked.cons {sock : Nat} {ready : Finset Nat} {s s' : LoopState} {rest : List Nat} {handled : List Handled}
    {call : Handled} {result : Option (LoopState × List Handled)} (hready : s.hasReady ready call.conn)
    (hcall : s.Calls ready call) (hsockets : ∀ x ∈ rest, s'.sockets x = s.sockets x)
    (h : Walked sock ready s' rest (handled ++ [call]) result) :
    Walked sock ready s (call.conn :: rest) handled result := by
  obtain ⟨s'', l', calls, rfl, hconns, hcalls, hinv⟩ := h
  rw [LoopState.hasReady_congr fun x hx => LoopState.fds_congr (hsockets x hx)] at hconns
  refine ⟨s'', l', call :: calls, by rw [List.append_assoc]; rfl, ?_, ?_, hinv⟩
  · rw [List.map_cons, hconns, List.filter_cons_of_pos hready]
  · intro x hx
    rcases List.mem_cons.mp hx with rfl | hx
    · exact hcall
    · have hmem : x.conn ∈ rest.filter (s.hasReady ready) := hconns ▸ List.mem_map_of_mem hx
      exact (hcalls x hx).congr (hsockets _ (List.mem_filter.mp hmem).1)

/-- The walk from the connections `done` on handles those of `rest` that have a ready socket. -/
lemma walk_spec {sock : Nat} {round : Round} (h0 : 0 ∉ round.ready) {rest : List Nat} :
    ∀ {fuel : Nat} {curr : Option Nat} {readyNum : Int} {s : LoopState} (done : List Nat) (handled : List Handled),
      LoopInv sock s (done ++ rest) → Path s.next curr rest → readyNum = s.readyCount round.ready rest →
      rest.length ≤ fuel →
      Walked sock round.ready s rest handled (walk round fuel curr readyNum s handled) := by
  induction rest with
  | nil =>
    intro fuel curr readyNum s done handled h hpath _ _
    obtain rfl : curr = none := hpath
    have hwalk : walk round fuel none readyNum s handled = some (s, handled) := by
      cases fuel <;> rw [walk]
    rw [hwalk]
    exact walked_nil h rfl handled
  | cons conn rest ih =>
    intro fuel curr readyNum s done handled h hpath hnum hfuel
    obtain ⟨rfl, hpath⟩ := hpath
    obtain ⟨fuel, rfl⟩ : ∃ n, fuel = n + 1 := ⟨fuel - 1, by simp only [List.length_cons] at hfuel; omega⟩
    have hroom : rest.length ≤ fuel := by simpa using hfuel
    obtain ⟨c, hc⟩ := h.mem_heap (List.mem_append_right done List.mem_cons_self)
    have hnextC : s.next conn = c.next := by simp [LoopState.next, hc]
    have hfdsC : s.fds conn = c.fds := by simp [LoopState.fds, hc]
    have hreadyC : s.hasReady round.ready conn =
        (decide (c.browserFd ∈ round.ready) || decide (c.serverFd ∈ round.ready)) := by
      rw [LoopState.hasReady, hfdsC, c.any_fds h0]
    have hcount : s.readyCount round.ready (conn :: rest) = (decide (c.browserFd ∈ round.ready)).toNat +
        (decide (c.serverFd ∈ round.ready)).toNat + s.readyCount round.ready rest := by
      simp only [LoopState.readyCount, LoopState.descriptors, List.flatMap_cons, List.countP_append, hfdsC,
        c.countP_fds h0]
    by_cases hpos : 0 < readyNum
    · rw [walk, if_pos hpos]
      simp only [hc, Option.bind_eq_bind, Option.bind_some]
      have hrest : readyNum - (decide (c.browserFd ∈ round.ready)).toNat - (decide (c.serverFd ∈ round.ready)).toNat =
          s.readyCount round.ready rest := by
        rw [hnum, hcount]
        push_cast
        omega
      have hstay : LoopInv sock s ((done ++ [conn]) ++ rest) := by
        rw [List.append_assoc]
        exact h
      rw [hnextC] at hpath
      by_cases hready : s.hasReady round.ready conn
      · have hor : decide (c.browserFd ∈ round.ready) = true ∨ decide (c.serverFd ∈ round.ready) = true := by
          rwa [hreadyC, Bool.or_eq_true] at hready
        obtain ⟨hcall, hcalls⟩ := proxyHandleConn_calls round.ready hc
          (round.handlerBrowser handled.length) (round.handlerServer handled.length)
        rw [if_pos hor, hrest]
        generalize proxyHandleConn conn (round.handlerBrowser handled.length) (round.handlerServer handled.length)
          (decide (c.browserFd ∈ round.ready)) (decide (c.serverFd ∈ round.ready)) = handling at hcall hcalls ⊢
        obtain ⟨ret, call⟩ := handling
        obtain rfl : call.conn = conn := hcall
        split
        · obtain ⟨s', hs', hinv, ⟨c', hc', hnext'⟩, hpath', hsockets'⟩ := h.close
          have hconn : call.conn ∉ rest := (List.nodup_cons.mp (List.nodup_append.mp h.linked.nodup).2.1).1
          have hsockets : ∀ x ∈ rest, s'.sockets x = s.sockets x := fun x hx =>
            hsockets' x (fun heq => hconn (heq ▸ hx))
          have hcount' : s.readyCount round.ready rest = s'.readyCount round.ready rest := by
            rw [LoopState.readyCount, LoopState.readyCount,
              LoopState.descriptors_congr fun x hx => LoopState.fds_congr (hsockets x hx)]
          rw [hs', Option.bind_some, hc', Option.bind_some, hnext', hnextC]
          exact (ih done _ hinv (hpath.congr hpath') (congrArg _ hcount') hroom).cons hready hcalls hsockets
        · exact (ih _ _ hstay hpath rfl hroom).cons hready hcalls fun _ _ => rfl
      · have hor : ¬(decide (c.browserFd ∈ round.ready) = true ∨ decide (c.serverFd ∈ round.ready) = true) := by
          rwa [hreadyC, Bool.or_eq_true] at hready
        rw [if_neg hor, Walked, List.filter_cons_of_neg hready]
        exact ih _ handled hstay hpath hrest hroom
    · have hzero : s.readyCount round.ready (conn :: rest) = 0 := by omega
      rw [walk, if_neg hpos]
      exact walked_nil h (LoopState.filter_hasReady_eq_nil hzero) handled

/-! ## Rounds and runs -/

lemma card_eq_countP {ready : Finset Nat} {l : List Nat} (hl : l.Nodup) (hsub : ready ⊆ l.toFinset) :
    ready.card = l.countP fun fd => fd ∈ ready := by
  have hready : ready = (l.filter fun fd => fd ∈ ready).toFinset := by
    ext fd
    rw [List.mem_toFinset, List.mem_filter, decide_eq_true_iff]
    exact ⟨fun h => ⟨List.mem_toFinset.mp (hsub h), h⟩, And.right⟩
  rw [List.countP_eq_length_filter, ← List.toFinset_card_of_nodup (hl.filter _), ← hready]

lemma LoopInv.card_ready {sock : Nat} {s : LoopState} {l : List Nat} (h : LoopInv sock s l) {ready : Finset Nat}
    (hsub : ready ⊆ s.config.ready) :
    ready.card = (decide (sock ∈ ready)).toNat + s.readyCount ready l := by
  rw [card_eq_countP h.nodup (h.watched ▸ hsub), List.countP_cons, LoopState.readyCount, Nat.add_comm]
  by_cases hsock : sock ∈ ready <;> simp [hsock]

lemma LoopInv.length_le {sock : Nat} {s : LoopState} {l : List Nat} (h : LoopInv sock s l) :
    l.length ≤ s.heap.length := by
  rw [← List.toFinset_card_of_nodup h.linked.nodup, ← Finset.card_range s.heap.length]
  apply Finset.card_le_card
  intro x hx
  exact Finset.mem_range.mpr (h.alloc x (List.mem_toFinset.mp hx))

lemma LoopState.hasReady_iff {s : LoopState} {ready : Finset Nat} {conn : Nat} (h0 : 0 ∉ ready) :
    s.hasReady ready conn ↔ s.IsReady ready conn := by
  unfold LoopState.hasReady LoopState.fds LoopState.IsReady
  cases hc : s.heap[conn]? with
  | none => simp
  | some c => simp [c.any_fds h0]

/-- The start of a round: a connection may be accepted, but the ready ones are those listed before. -/
lemma LoopInv.accept {sock : Nat} {s : LoopState} {l : List Nat} {round : Round} (h : LoopInv sock s l)
    (hcalls : SystemCalls s round) (isNew : Bool) :
    ∃ s' l', s.acceptNew round isNew = some s' ∧ LoopInv sock s' l' ∧
      s'.readyCount round.ready l' = s.readyCount round.ready l ∧
      l'.filter (s'.hasReady round.ready) = l.filter (s.hasReady round.ready) ∧
      ∀ x ∈ l, s'.sockets x = s.sockets x := by
  unfold LoopState.acceptNew
  split
  · obtain ⟨s', l', hs', hinv, hl', hsockets⟩ := h.create round.accept round.server hcalls.accept hcalls.socket
    have hfds : ∀ x ∈ l, s'.fds x = s.fds x := fun x hx => LoopState.fds_congr (hsockets x hx)
    refine ⟨s', l', hs', hinv, ?_⟩
    rw [← LoopState.hasReady_congr hfds, LoopState.readyCount, LoopState.readyCount,
      ← LoopState.descriptors_congr hfds]
    rcases hl' with rfl | ⟨rfl, hunused⟩
    · exact ⟨rfl, rfl, hsockets⟩
    · have hnone : ∀ fd ∈ s'.fds s.heap.length, fd ∉ round.ready := fun fd hfd hmem =>
        hunused fd hfd (h.held (hcalls.watched hmem))
      refine ⟨?_, ?_, hsockets⟩
      · rw [LoopState.descriptors, List.flatMap_cons, List.countP_append, LoopState.descriptors,
          List.countP_eq_zero.mpr (by simpa using hnone), Nat.zero_add]
      · apply List.filter_cons_of_neg
        simpa [LoopState.hasReady] using hnone
  · exact ⟨s, l, rfl, h, rfl, rfl, fun _ _ => rfl⟩

/-- A round keeps the invariant and handles the connections that are ready. -/
lemma LoopInv.round {sock : Nat} {s : LoopState} {l : List Nat} {round : Round} (h : LoopInv sock s l)
    (hcalls : SystemCalls s round) :
    ∃ result l', proxyRound sock s round = some result ∧ result.running = true ∧ LoopInv sock result.state l' ∧
      result.handled.map Handled.conn = l.filter (s.hasReady round.ready) ∧
      ∀ x ∈ result.handled, s.Calls round.ready x := by
  have hcard := h.card_ready hcalls.watched
  have hsize := hcalls.size
  rw [proxyRound, if_neg (by omega)]
  split
  · have hzero : s.readyCount round.ready l = 0 := by omega
    exact ⟨_, l, rfl, rfl, h, (LoopState.filter_hasReady_eq_nil hzero).symm, fun x hx => (List.not_mem_nil hx).elim⟩
  · obtain ⟨s', l', hs', hinv, hcount, hfilter, hsockets⟩ := h.accept hcalls (decide (sock ∈ round.ready))
    have h0 : 0 ∉ round.ready := fun hmem => h.zero_notMem (hcalls.watched hmem)
    have hnum : round.readyNum - (decide (sock ∈ round.ready)).toNat = s'.readyCount round.ready l' := by omega
    obtain ⟨s'', l'', calls, hwalk, hconns, hall, hinv'⟩ := walk_spec h0 [] [] hinv hinv.linked.path hnum hinv.length_le
    rw [hfilter] at hconns
    refine ⟨⟨s'', calls, true⟩, l'', ?_, rfl, hinv', hconns, fun x hx => ?_⟩
    · simp only [hs', hwalk, Option.bind_eq_bind, Option.bind_some, List.nil_append]
      rfl
    · have hmem : x.conn ∈ l.filter (s.hasReady round.ready) := hconns ▸ List.mem_map_of_mem hx
      exact (hall x hx).congr (hsockets _ (List.mem_filter.mp hmem).1)

lemma LoopInv.start {held : Finset Nat} {sock : Nat} {socket : Option Nat} {bind listen : Bool} {s : LoopState}
    (hfresh : ∀ fd, socket = some fd → Fresh held fd)
    (h : proxySetupListen held socket bind listen = some (sock, s)) : LoopInv sock s [] := by
  simp only [proxySetupListen, Option.bind_eq_bind, Option.bind_eq_some_iff] at h
  obtain ⟨fd, hfd, s', hwatch, h⟩ := h
  split at h
  · obtain ⟨rfl, rfl⟩ := Prod.mk.inj (Option.some.inj h)
    have hnew := hfresh fd hfd
    have hempty : Watching ⟨⟨∅, 0, none⟩, [], insert fd held⟩ := ⟨by simp, by simp⟩
    have hheldFd := Finset.mem_insert_self fd held
    obtain ⟨s'', hs'', hwatching, hready, hlist, hheap, hheld⟩ := hempty.watch hnew.lt hheldFd
    obtain rfl := Option.some.inj (hwatch.symm.trans hs'')
    refine ⟨hwatching, hlist, by simp, by simp [LoopState.descriptors], ?_, hnew.ne_zero⟩
    rw [hready]
    rfl
  · exact absurd h (Option.some_ne_none _).symm

lemma Reachable.inv {held : Finset Nat} {sock : Nat} {s : LoopState} (h : Reachable held sock s) :
    ∃ l, LoopInv sock s l := by
  induction h with
  | listen hfresh h => exact ⟨[], LoopInv.start hfresh h⟩
  | round _ hcalls hround _ ih =>
    obtain ⟨l, hinv⟩ := ih
    obtain ⟨result, l', hresult, -, hinv', -, -⟩ := hinv.round hcalls
    obtain rfl := Option.some.inj (hround.symm.trans hresult)
    exact ⟨l', hinv'⟩

lemma LoopState.mem_descriptors {s : LoopState} {l : List Nat} {fd : Nat} : fd ∈ s.descriptors l ↔ fd ≠ 0 ∧
    ∃ conn ∈ l, ∃ c, s.heap[conn]? = some c ∧ (fd = c.browserFd ∨ fd = c.serverFd) := by
  have hfds : ∀ conn, fd ∈ s.fds conn ↔
      ∃ c, s.heap[conn]? = some c ∧ fd ≠ 0 ∧ (fd = c.browserFd ∨ fd = c.serverFd) := by
    intro conn
    unfold LoopState.fds
    cases hc : s.heap[conn]? with
    | none => simp
    | some c => simp [Conn.fds, and_comm]
  rw [LoopState.descriptors, List.mem_flatMap]
  constructor
  · rintro ⟨conn, hconn, hfd⟩
    obtain ⟨c, hc, hne, hfd⟩ := (hfds conn).mp hfd
    exact ⟨hne, conn, hconn, c, hc, hfd⟩
  · rintro ⟨hne, conn, hconn, c, hc, hfd⟩
    exact ⟨conn, hconn, (hfds conn).mpr ⟨c, hc, hne, hfd⟩⟩

/-- Between the rounds the connections form a doubly linked list, exactly the listening socket and
their sockets are watched, and these are below `fd_max`. A round ends, and handles every listed
connection that has a ready socket once, and no other, with the handlers of its ready sockets. -/
theorem event_loop_invariant (held : Finset Nat) (sock : Nat) (s : LoopState) (h : Reachable held sock s) :
    ∃ l, Linked s.next s.prev none s.config.listConn l ∧
      (∀ fd, fd ∈ s.config.ready ↔ fd = sock ∨ fd ≠ 0 ∧
        ∃ conn ∈ l, ∃ c, s.heap[conn]? = some c ∧ (fd = c.browserFd ∨ fd = c.serverFd)) ∧
      (∀ fd ∈ s.config.ready, fd < s.config.fdMax) ∧
      ∀ round, SystemCalls s round → ∃ result, proxyRound sock s round = some result ∧ result.running = true ∧
        (result.handled.map Handled.conn).Nodup ∧
        (∀ conn, conn ∈ result.handled.map Handled.conn ↔ conn ∈ l ∧ s.IsReady round.ready conn) ∧
        ∀ x ∈ result.handled, s.Calls round.ready x := by
  obtain ⟨l, hinv⟩ := h.inv
  refine ⟨l, hinv.linked, ?_, hinv.below, ?_⟩
  · intro fd
    rw [hinv.watched, List.mem_toFinset, List.mem_cons, LoopState.mem_descriptors]
  · intro round hcalls
    obtain ⟨result, l', hresult, hrunning, -, hhandled, hall⟩ := hinv.round hcalls
    refine ⟨result, hresult, hrunning, ?_, ?_, hall⟩
    · rw [hhandled]
      exact hinv.linked.nodup.filter _
    · intro conn
      rw [hhandled, List.mem_filter, LoopState.hasReady_iff]
      exact fun hmem => hinv.zero_notMem (hcalls.watched hmem)

section Example

/-- The listening socket is 3. -/
def listening : LoopState := ⟨⟨{3}, 4, none⟩, [], {3, 0, 1, 2}⟩

/-- A connection is accepted with socket 4, and connected to a server through 5. -/
def acceptRound : Round := ⟨{3}, 1, true, some 4, .connected 5, fun _ => 0, fun _ => 0⟩

def accepted : LoopState := ⟨⟨{5, 4, 3}, 6, some 0⟩, [⟨4, 5, none, none⟩], {5, 4, 3, 0, 1, 2}⟩

lemma reachable_listening : Reachable {0, 1, 2} 3 listening := by
  have hfresh : ∀ fd, some 3 = some fd → Fresh {0, 1, 2} fd := by
    rintro fd ⟨⟩
    exact ⟨by decide, by decide, by decide⟩
  have hlisten : proxySetupListen {0, 1, 2} (some 3) true true = some (3, listening) := rfl
  exact Reachable.listen hfresh hlisten

lemma reachable_accepted : Reachable {0, 1, 2} 3 accepted := by
  have hcalls : SystemCalls listening acceptRound := by
    refine ⟨by decide, by decide, ?_, ?_⟩
    · rintro fd ⟨⟩
      exact ⟨by decide, by decide, by decide⟩
    · rintro fd ⟨⟩ sock ⟨⟩
      exact ⟨by decide, by decide, by decide⟩
  have hround : proxyRound 3 listening acceptRound = some ⟨accepted, [], true⟩ := rfl
  exact reachable_listening.round hcalls hround rfl

theorem event_loop_invariant_accepted :
    ∃ l, Linked accepted.next accepted.prev none accepted.config.listConn l ∧
      (∀ fd, fd ∈ accepted.config.ready ↔ fd = 3 ∨ fd ≠ 0 ∧
        ∃ conn ∈ l, ∃ c, accepted.heap[conn]? = some c ∧ (fd = c.browserFd ∨ fd = c.serverFd)) ∧
      (∀ fd ∈ accepted.config.ready, fd < accepted.config.fdMax) ∧
      ∀ round, SystemCalls accepted round → ∃ result, proxyRound 3 accepted round = some result ∧
        result.running = true ∧ (result.handled.map Handled.conn).Nodup ∧
        (∀ conn, conn ∈ result.handled.map Handled.conn ↔ conn ∈ l ∧ accepted.IsReady round.ready conn) ∧
        ∀ x ∈ result.handled, accepted.Calls round.ready x :=
  event_loop_invariant {0, 1, 2} 3 accepted reachable_accepted

/-- Both sockets of a connection are ready, and the handler of the browser fails: that of the server is not called,
and the connection is closed. -/
example : proxyRound 3 accepted ⟨{4, 5}, 2, true, none, .noSocket, fun _ => -1, fun _ => 0⟩ =
    some ⟨⟨⟨{3}, 6, none⟩, [⟨0, 0, none, none⟩], {3, 0, 1, 2}⟩, [⟨0, some (-1), none⟩], true⟩ := rfl

end Example

end VideoCDN.Proxy.EventLoop
