import VideoCDN.Proxy.CallFrames
import VideoCDN.Proxy.EventLoop
import VideoCDN.Proxy.ProxyRun

/-!
# The socket a request is sent to

A connection whose server could not be connected keeps the descriptor 0 from `proxy_conn_init`, and
`handler_browser` takes a negative one only for a failure. What it forwards then goes to whatever the
proxy was started with as descriptor 0.
-/

namespace VideoCDN.Proxy

open CString Buffer Http

/-! ## Sending -/

/-- A call of `handler_browser` where `send` on the descriptor of the server succeeds or fails. -/
def BrowserResult.withSend (r : BrowserResult) (accepts : Bool) : BrowserResult :=
  if accepts ∨ r.sent = [] then r else { r with ret := -1, sent := [] }

/-- The call reports an error and sends nothing. -/
structure BrowserResult.Refuses (r : BrowserResult) : Prop where
  ret : r.ret < 0
  sent : r.sent = []

section Call

variable {config : Config} {conn : ProxyConn} {data buf : List UInt8} {request : Request}

/-- A complete request is forwarded, unless the descriptor of the server is negative. -/
lemma handlerBrowser_complete (hrecv : receive conn.browser.buf conn.browser.offset data = some buf)
    (hparse : parse buf data.length = some request) (hcomplete : ¬request.status < 0) {r : BrowserResult}
    (h : handlerBrowser config conn data = some r) :
    conn.server.fd < 0 ∧ r.Refuses ∧ r.forwarded = none ∨
      0 ≤ conn.server.fd ∧ 0 ≤ r.ret ∧ r.sent ≠ [] ∧ r.forwarded = some request ∧
        Forwardable config conn request := by
  obtain ⟨buf', request', hrecv', hparse', hcases⟩ := handlerBrowser_cases h
  rw [hrecv] at hrecv'
  obtain rfl := Option.some.inj hrecv'
  rw [hparse] at hparse'
  obtain rfl := Option.some.inj hparse'
  rcases hcases with ⟨hwaits, -⟩ | ⟨-, hfd, rfl⟩ | ⟨-, hfd, forward, hforward, rfl⟩
  · exact absurd hwaits hcomplete
  · exact Or.inl ⟨hfd, ⟨neg_one_lt_zero, rfl⟩, rfl⟩
  · have hok := (forwardRequest_isSome_iff config (conn.takeRequest buf _ request) request _ _ (not_lt.mp hfd)).mp
      (Option.isSome_of_eq_some hforward)
    exact Or.inr ⟨not_lt.mp hfd, Int.natCast_nonneg _, forwardRequest_sent_ne_nil hforward, rfl,
      hok.connected, hok.text⟩

/-- The call returns whenever the request can be forwarded. -/
lemma handlerBrowser_returns (hrecv : receive conn.browser.buf conn.browser.offset data = some buf)
    (hparse : parse buf data.length = some request) (hcomplete : ¬request.status < 0)
    (h : conn.server.fd < 0 ∨ Forwardable config conn request) : ∃ r, handlerBrowser config conn data = some r := by
  rw [handlerBrowser_eq config hrecv hparse, if_neg hcomplete]
  by_cases hfd : conn.server.fd < 0
  · rw [if_pos hfd]
    exact ⟨_, rfl⟩
  · have hok := h.resolve_left hfd
    have hsome := (forwardRequest_isSome_iff config (conn.takeRequest buf (conn.browser.offset + data.length) request)
      request conn.browser.offset data.length (not_lt.mp hfd)).mpr ⟨hok.connected, hok.text⟩
    obtain ⟨forward, hforward⟩ := Option.isSome_iff_exists.mp hsome
    rw [if_neg hfd, hforward]
    exact ⟨_, rfl⟩

/-- A request that the grammar rejects is refused only where nothing can be sent to the server. -/
theorem rejected_request_refused_iff (config : Config) (conn : ProxyConn) (data buf : List UInt8)
    (request : Request) (accepts : Bool) (hrecv : receive conn.browser.buf conn.browser.offset data = some buf)
    (hparse : parse buf data.length = some request) (hrejected : request.status = 400) :
    (∃ r, handlerBrowser config conn data = some r ∧ (r.withSend accepts).Refuses) ↔
      conn.server.fd < 0 ∨ accepts = false ∧ Forwardable config conn request := by
  have hcomplete : ¬request.status < 0 := by omega
  constructor
  · rintro ⟨r, hcall, hrefuses⟩
    rcases handlerBrowser_complete hrecv hparse hcomplete hcall with
      ⟨hfd, -, -⟩ | ⟨-, hret, -, -, hforwardable⟩
    · exact Or.inl hfd
    · cases accepts with
      | false => exact Or.inr ⟨rfl, hforwardable⟩
      | true => exact absurd hrefuses.ret (not_lt.mpr hret)
  · intro hwhen
    obtain ⟨r, hcall⟩ := handlerBrowser_returns hrecv hparse hcomplete (hwhen.imp_right And.right)
    refine ⟨r, hcall, ?_⟩
    rcases handlerBrowser_complete hrecv hparse hcomplete hcall with
      ⟨-, hrefuses, -⟩ | ⟨hfd, -, hsent, -, -⟩
    · rwa [BrowserResult.withSend, if_pos (Or.inr hrefuses.sent)]
    · obtain ⟨rfl, -⟩ := hwhen.resolve_left (not_lt.mpr hfd)
      rw [BrowserResult.withSend, if_neg (by simp [hsent])]
      exact ⟨neg_one_lt_zero, rfl⟩

end Call

section Example

/-- A request without a header line. -/
def bareData : List UInt8 := bytes "GET / HTTP/1.1\r\n\r\n"

def bareRequest : Request := ⟨bytes "GET", bytes "/", some (bytes "HTTP/1.1"), [], 0, 0, 400, 18⟩

lemma parse_bareData : parse bareData bareData.length = some bareRequest := by decide +kernel

theorem rejected_request_refused_iff_bare :
    (∃ r, handlerBrowser newConfig newConn bareData = some r ∧ (r.withSend true).Refuses) ↔
      newConn.server.fd < 0 ∨ true = false ∧ Forwardable newConfig newConn bareRequest :=
  rejected_request_refused_iff newConfig newConn bareData bareData bareRequest true (by decide) parse_bareData
    (by decide)

/-- A request without a header line is rejected, and sent to the server. -/
theorem rejected_request_is_sent :
    ¬∀ (config : Config) (conn : ProxyConn) (data buf : List UInt8) (request : Request),
      receive conn.browser.buf conn.browser.offset data = some buf → parse buf data.length = some request →
      request.status = 400 → ∃ r, handlerBrowser config conn data = some r ∧ (r.withSend true).Refuses := by
  intro h
  obtain ⟨r, hcall, hrefuses⟩ := h newConfig newConn bareData bareData bareRequest (by decide) parse_bareData
    (by decide)
  rcases handlerBrowser_complete (by decide) parse_bareData (by decide) hcall with ⟨hfd, -, -⟩ | ⟨-, hret, -, -, -⟩
  · exact absurd hfd (by decide)
  · exact absurd hrefuses.ret (not_lt.mpr hret)

end Example

/-! ## Descriptors -/

/-- What an open descriptor is: something that was open before the first connection, to which `send` succeeds or
not, or a socket of the connection with the given number. -/
inductive Endpoint
  | inherited (accepts : Bool)
  | browser (id : Nat)
  | server (id : Nat)
  deriving DecidableEq, Repr

/-- A new descriptor is not in use. -/
def openFd (sockets : Nat → Option Endpoint) (fd : Nat) (endpoint : Endpoint) : Option (Nat → Option Endpoint) :=
  if sockets fd = none then some (Function.update sockets fd (some endpoint)) else none

/-- The socket to the server, where it stays open. -/
def openServer (sockets : Nat → Option Endpoint) (id : Nat) : Option Nat → Option (Nat → Option Endpoint)
  | none => some sockets
  | some sock => openFd sockets sock (.server id)

/-- `proxy_conn_close` for one descriptor of a connection. -/
def closeFd (sockets : Nat → Option Endpoint) (fd : Nat) : Nat → Option Endpoint :=
  if fd = 0 then sockets else Function.update sockets fd none

/-- The socket that `proxy_connect_server` succeeded with. -/
def EventLoop.ServerSocket.connectedFd : EventLoop.ServerSocket → Option Nat
  | .connected sock => some sock
  | _ => none

/-- A connection with its number, its descriptor and what happened in `proxy_connect_server`. -/
structure OpenConn where
  id : Nat
  browserFd : Nat
  socket : EventLoop.ServerSocket
  conn : ProxyConn

structure SocketState where
  config : Config
  conns : List OpenConn
  manifests : List (List UInt8)
  nextId : Nat
  sockets : Nat → Option Endpoint

/-- Whether `send` on a descriptor succeeds. -/
def SocketState.accepts (w : SocketState) (fd : Int) : Bool :=
  match w.sockets fd.toNat with
  | none => false
  | some (.inherited accepts) => accepts
  | some _ => true

inductive SocketEvent
  | accept (ip : List UInt8) (browserFd : Nat) (server : EventLoop.ServerSocket)
  | browser (i : Nat) (data : List UInt8)
  | server (i : Nat) (data : List UInt8)
  | hangup (i : Nat)

/-- The sockets of a connection are closed, and it leaves the list. -/
def SocketState.closeConn (w : SocketState) (i : Nat) (c : OpenConn) : SocketState :=
  { w with
    conns := w.conns.eraseIdx i
    sockets := closeFd (closeFd w.sockets c.browserFd) c.conn.server.fd.toNat }

/-- A connection after a call of its handler. -/
def SocketState.afterCall (w : SocketState) (i : Nat) (c : OpenConn) (ret : Int) (conn : ProxyConn) : SocketState :=
  if ret < 0 then w.closeConn i { c with conn := conn } else { w with conns := w.conns.set i { c with conn := conn } }

/-- The new connection, with the sockets that stay open for it. -/
def acceptConn (w : SocketState) (ip : List UInt8) (browserFd : Nat) (server : EventLoop.ServerSocket)
    (sockets : Nat → Option Endpoint) : SocketState :=
  ⟨w.config, ⟨w.nextId, browserFd, server, proxyConnCreate w.config ip server.connectedFd⟩ :: w.conns, w.manifests,
    w.nextId + 1, sockets⟩

/-- The descriptor 0 is not watched, so nothing is received from a server that could not be connected. -/
def socketStep (w : SocketState) : SocketEvent → Option SocketState
  | .accept ip browserFd server => do
    let sockets ← openFd w.sockets browserFd (.browser w.nextId)
    let sockets ← openServer sockets w.nextId server.connectedFd
    return acceptConn w ip browserFd server sockets
  | .browser i data => do
    let c ← w.conns[i]?
    let r ← handlerBrowser w.config c.conn data
    return { w with config := r.config }.afterCall i c (r.withSend (w.accepts c.conn.server.fd)).ret r.conn
  | .server i data => do
    let c ← w.conns[i]?
    if c.conn.server.fd = 0 then none
    else
      let r ← handlerServer w.config c.conn data
      return { w with config := r.config, manifests := w.manifests ++ manifestBodies r.dispatched }.afterCall i c
        r.ret r.conn
  | .hangup i => do
    let c ← w.conns[i]?
    return w.closeConn i c

/-- The states of the proxy. Before the first connection the descriptor 0 is open: where the proxy was started
without it, the first file or socket it opened got it. -/
inductive SocketReachable (config : Config) : SocketState → Prop
  | start (sockets : Nat → Option Endpoint) (hinherited : ∀ fd e, sockets fd = some e → ∃ a, e = .inherited a)
      (hstdin : ∃ e, sockets 0 = some e) :
      SocketReachable config ⟨{ config with defaultList := [] }, [], [], 0, sockets⟩
  | step {w w' : SocketState} (e : SocketEvent) (h : SocketReachable config w) (hstep : socketStep w e = some w') :
      SocketReachable config w'

section Descriptors

variable {sockets sockets' : Nat → Option Endpoint} {fd fd' : Nat} {e e' : Endpoint}

lemma openFd_self (h : openFd sockets fd e = some sockets') : sockets' fd = some e := by
  obtain ⟨-, rfl⟩ : sockets fd = none ∧ Function.update sockets fd (some e) = sockets' := by
    simpa [openFd] using h
  exact Function.update_self _ _ _

/-- What is open stays as it is. -/
lemma openFd_of_open (h : openFd sockets fd e = some sockets') (hopen : sockets fd' = some e') :
    sockets' fd' = some e' := by
  obtain ⟨hnew, rfl⟩ : sockets fd = none ∧ Function.update sockets fd (some e) = sockets' := by
    simpa [openFd] using h
  have hne : fd' ≠ fd := by
    rintro rfl
    rw [hnew] at hopen
    cases hopen
  rwa [Function.update_of_ne hne]

lemma openServer_of_open {id : Nat} {server : Option Nat} (h : openServer sockets id server = some sockets')
    (hopen : sockets fd' = some e') : sockets' fd' = some e' := by
  cases server with
  | none =>
    obtain rfl := Option.some.inj h
    exact hopen
  | some sock => exact openFd_of_open h hopen

lemma closeFd_of_ne (h : fd ≠ fd') : closeFd sockets fd fd' = sockets fd' := by
  unfold closeFd
  split
  · rfl
  · exact Function.update_of_ne h.symm _ _

lemma closeFd_zero_apply : closeFd sockets fd 0 = sockets 0 := by
  by_cases h : fd = 0
  · rw [closeFd, if_pos h]
  · exact closeFd_of_ne h

end Descriptors

/-- What holds of a connection in every state: its sockets are its own, and its descriptor of the server is
0 where none could be connected. -/
structure OwnsSockets (w : SocketState) (c : OpenConn) : Prop where
  id : c.id < w.nextId
  browser : w.sockets c.browserFd = some (.browser c.id)
  fd : c.conn.server.fd = (c.socket.connectedFd.getD 0 : Nat)
  server : ∀ sock, c.socket.connectedFd = some sock → w.sockets sock = some (.server c.id)

structure SocketInv (w : SocketState) : Prop where
  stdin : ∃ a, w.sockets 0 = some (.inherited a)
  owns : ∀ c ∈ w.conns, OwnsSockets w c
  nodup : (w.conns.map OpenConn.id).Nodup

/-- Closing one connection leaves the sockets of another as they are. -/
lemma OwnsSockets.closeConn {w : SocketState} {i : Nat} {c d : OpenConn} (hd : OwnsSockets w d)
    (hc : OwnsSockets w c) (hne : d.id ≠ c.id) : OwnsSockets (w.closeConn i c) d := by
  have hkeeps : ∀ fd e, (e = .browser d.id ∨ e = .server d.id) → w.sockets fd = some e →
      (w.closeConn i c).sockets fd = some e := by
    intro fd e he hfd
    have hbrowser : c.browserFd ≠ fd := by
      rintro rfl
      rw [hc.browser] at hfd
      rcases he with rfl | rfl <;> simp [hne.symm] at hfd
    have hserver : c.conn.server.fd.toNat = fd → c.conn.server.fd.toNat = 0 := by
      intro heq
      rw [hc.fd, Int.toNat_natCast] at heq ⊢
      cases hsock : c.socket.connectedFd with
      | none => rfl
      | some sock =>
        rw [hsock, Option.getD_some] at heq
        have hown := hc.server sock hsock
        rw [heq, hfd] at hown
        rcases he with rfl | rfl <;> simp [hne] at hown
    change closeFd (closeFd w.sockets c.browserFd) c.conn.server.fd.toNat fd = some e
    by_cases heq : c.conn.server.fd.toNat = fd
    · rw [closeFd, if_pos (hserver heq), closeFd_of_ne hbrowser, hfd]
    · rw [closeFd_of_ne heq, closeFd_of_ne hbrowser, hfd]
  exact ⟨hd.id, hkeeps _ _ (Or.inl rfl) hd.browser, hd.fd, fun sock hsock =>
    hkeeps _ _ (Or.inr rfl) (hd.server sock hsock)⟩

lemma SocketInv.closeConn {w : SocketState} (hw : SocketInv w) {i : Nat} {c d : OpenConn}
    (hc : w.conns[i]? = some d) (hown : OwnsSockets w c) (hid : c.id = d.id) : SocketInv (w.closeConn i c) := by
  obtain ⟨a, hstdin⟩ := hw.stdin
  refine ⟨⟨a, ?_⟩, ?_, ?_⟩
  · change closeFd (closeFd w.sockets c.browserFd) c.conn.server.fd.toNat 0 = _
    rw [closeFd_zero_apply, closeFd_zero_apply, hstdin]
  · intro e he
    obtain ⟨j, hji, hj⟩ := List.mem_eraseIdx_iff_getElem?.mp he
    apply (hw.owns e (List.mem_of_getElem? hj)).closeConn hown
    intro heq
    apply hji
    have hi : (w.conns.map OpenConn.id)[i]? = some d.id := by rw [List.getElem?_map, hc, Option.map_some]
    have hj' : (w.conns.map OpenConn.id)[j]? = some d.id := by
      rw [List.getElem?_map, hj, Option.map_some, heq, hid]
    have hlt : j < (w.conns.map OpenConn.id).length := (List.getElem?_eq_some_iff.mp hj').1
    exact (List.getElem?_inj hlt hw.nodup).mp (hj'.trans hi.symm)
  · change ((w.conns.eraseIdx i).map OpenConn.id).Nodup
    rw [← List.eraseIdx_map]
    exact hw.nodup.eraseIdx i

lemma map_id_set {conns : List OpenConn} {i : Nat} {c : OpenConn} (hc : conns[i]? = some c) (conn : ProxyConn) :
    (conns.set i { c with conn := conn }).map OpenConn.id = conns.map OpenConn.id := by
  obtain ⟨hi, rfl⟩ := List.getElem?_eq_some_iff.mp hc
  rw [List.map_set]
  apply List.ext_getElem
  · simp
  · intro j hj _
    by_cases hij : i = j
    · subst hij
      simp
    · simp [hij]

/-- A call of a handler that keeps the descriptor of the server keeps the invariant. -/
lemma SocketInv.afterCall {w : SocketState} (hw : SocketInv w) {i : Nat} {c : OpenConn} (hc : w.conns[i]? = some c)
    (config : Config) (manifests : List (List UInt8)) (ret : Int) {conn : ProxyConn}
    (hfd : conn.server.fd = c.conn.server.fd) :
    SocketInv ({ w with config := config, manifests := manifests }.afterCall i c ret conn) := by
  have hown := hw.owns c (List.mem_of_getElem? hc)
  have hown' : OwnsSockets w { c with conn := conn } := ⟨hown.id, hown.browser, hfd.trans hown.fd, hown.server⟩
  unfold SocketState.afterCall
  split
  · have hclose := hw.closeConn (i := i) hc hown' rfl
    exact ⟨hclose.stdin, fun d hd => ⟨(hclose.owns d hd).id, (hclose.owns d hd).browser, (hclose.owns d hd).fd,
      (hclose.owns d hd).server⟩, hclose.nodup⟩
  · refine ⟨hw.stdin, ?_, ?_⟩
    · intro d hd
      rcases List.mem_or_eq_of_mem_set hd with hd | rfl
      · have hd' := hw.owns d hd
        exact ⟨hd'.id, hd'.browser, hd'.fd, hd'.server⟩
      · exact ⟨hown'.id, hown'.browser, hown'.fd, hown'.server⟩
    · change ((w.conns.set i { c with conn := conn }).map OpenConn.id).Nodup
      rw [map_id_set hc]
      exact hw.nodup

lemma SocketInv.acceptConn {w : SocketState} (hw : SocketInv w) (ip : List UInt8) {browserFd : Nat}
    {server : EventLoop.ServerSocket} {sockets sockets' : Nat → Option Endpoint}
    (hbrowser : openFd w.sockets browserFd (.browser w.nextId) = some sockets)
    (hserver : openServer sockets w.nextId server.connectedFd = some sockets') :
    SocketInv (acceptConn w ip browserFd server sockets') := by
  have hkeeps : ∀ fd e, w.sockets fd = some e → sockets' fd = some e := fun fd e h =>
    openServer_of_open hserver (openFd_of_open hbrowser h)
  obtain ⟨a, hstdin⟩ := hw.stdin
  refine ⟨⟨a, hkeeps _ _ hstdin⟩, ?_, ?_⟩
  · intro c hc
    rcases List.mem_cons.mp hc with rfl | hc
    · refine ⟨Nat.lt_succ_self _, openServer_of_open hserver (openFd_self hbrowser), rfl, ?_⟩
      intro sock hsock
      change server.connectedFd = some sock at hsock
      rw [hsock] at hserver
      exact openFd_self hserver
    · have hown := hw.owns c hc
      exact ⟨hown.id.trans (Nat.lt_succ_self _), hkeeps _ _ hown.browser, hown.fd, fun sock hsock =>
        hkeeps _ _ (hown.server sock hsock)⟩
  · change (w.nextId :: w.conns.map OpenConn.id).Nodup
    rw [List.nodup_cons]
    refine ⟨?_, hw.nodup⟩
    intro hmem
    obtain ⟨c, hc, hid⟩ := List.mem_map.mp hmem
    have hlt := (hw.owns c hc).id
    omega

lemma socketInv_step {w w' : SocketState} {e : SocketEvent} (hw : SocketInv w) (h : socketStep w e = some w') :
    SocketInv w' := by
  cases e with
  | accept ip browserFd server =>
    simp only [socketStep, Option.bind_eq_bind, Option.bind_eq_some_iff] at h
    obtain ⟨sockets, hbrowser, sockets', hserver, h⟩ := h
    obtain rfl := Option.some.inj h
    exact hw.acceptConn ip hbrowser hserver
  | browser i data =>
    simp only [socketStep, Option.bind_eq_bind, Option.bind_eq_some_iff] at h
    obtain ⟨c, hc, r, hcall, h⟩ := h
    obtain rfl := Option.some.inj h
    exact hw.afterCall hc r.config w.manifests _ (handlerBrowser_frame hcall).1
  | server i data =>
    simp only [socketStep, Option.bind_eq_bind, Option.bind_eq_some_iff, Option.ite_none_left_eq_some] at h
    obtain ⟨c, hc, -, r, hcall, h⟩ := h
    obtain rfl := Option.some.inj h
    exact hw.afterCall hc r.config _ r.ret (handlerServer_frame hcall).2
  | hangup i =>
    simp only [socketStep, Option.bind_eq_bind, Option.bind_eq_some_iff] at h
    obtain ⟨c, hc, h⟩ := h
    obtain rfl := Option.some.inj h
    exact hw.closeConn hc (hw.owns c (List.mem_of_getElem? hc)) rfl

lemma SocketReachable.inv {config : Config} {w : SocketState} (h : SocketReachable config w) : SocketInv w := by
  induction h with
  | start sockets hinherited hstdin =>
    obtain ⟨e, he⟩ := hstdin
    obtain ⟨a, rfl⟩ := hinherited 0 e he
    exact ⟨⟨a, he⟩, fun c hc => absurd hc List.not_mem_nil, List.nodup_nil⟩
  | step e _ hstep ih => exact socketInv_step ih hstep

/-! ## The runs as runs of the proxy -/

/-- The state apart from the descriptors. -/
def SocketState.proxy (w : SocketState) : ProxyState := ⟨w.config, w.conns.map OpenConn.conn, w.manifests⟩

lemma SocketState.proxy_getElem? {w : SocketState} {i : Nat} {c : OpenConn} (hc : w.conns[i]? = some c) :
    w.proxy.conns[i]? = some c.conn := by
  change (w.conns.map OpenConn.conn)[i]? = _
  rw [List.getElem?_map, hc, Option.map_some]

lemma SocketState.proxy_closeConn (w : SocketState) (i : Nat) (c : OpenConn) :
    (w.closeConn i c).proxy = { w.proxy with conns := w.proxy.conns.eraseIdx i } := by
  change (⟨_, (w.conns.eraseIdx i).map OpenConn.conn, _⟩ : ProxyState) = _
  rw [← List.eraseIdx_map]
  rfl

lemma SocketState.proxy_afterCall (w : SocketState) (i : Nat) (c : OpenConn) (ret : Int) (conn : ProxyConn) :
    (w.afterCall i c ret conn).proxy = { w.proxy with conns := VideoCDN.Proxy.afterCall w.proxy.conns i ret conn } := by
  unfold SocketState.afterCall VideoCDN.Proxy.afterCall
  split
  · exact w.proxy_closeConn i _
  · change (⟨_, (w.conns.set i { c with conn := conn }).map OpenConn.conn, _⟩ : ProxyState) = _
    rw [List.map_set]
    rfl

/-- Where `send` fails, the connection is closed after the call as it is when `recv` fails. -/
lemma socketReachable_step {config : Config} {w w' : SocketState} {e : SocketEvent}
    (hreach : Reachable config w.proxy) (h : socketStep w e = some w') : Reachable config w'.proxy := by
  cases e with
  | accept ip browserFd server =>
    simp only [socketStep, Option.bind_eq_bind, Option.bind_eq_some_iff] at h
    obtain ⟨sockets, -, sockets', -, h⟩ := h
    obtain rfl := Option.some.inj h
    exact .step (.accept ip server.connectedFd) hreach rfl
  | browser i data =>
    simp only [socketStep, Option.bind_eq_bind, Option.bind_eq_some_iff] at h
    obtain ⟨c, hc, r, hcall, h⟩ := h
    obtain rfl := Option.some.inj h
    have hstep : proxyStep w.proxy (.browser i data) =
        some { w.proxy with config := r.config, conns := afterCall w.proxy.conns i r.ret r.conn } := by
      simp only [proxyStep, SocketState.proxy_getElem? hc, Option.bind_eq_bind, Option.bind_some]
      change (handlerBrowser w.config c.conn data).bind _ = _
      rw [hcall]
      rfl
    have hnext := Reachable.step _ hreach hstep
    rw [SocketState.proxy_afterCall]
    unfold BrowserResult.withSend
    split
    · exact hnext
    · by_cases hret : r.ret < 0
      · simp only [afterCall, if_pos hret] at hnext
        rw [afterCall, if_pos neg_one_lt_zero]
        exact hnext
      · have hclosed := Reachable.step (.hangup i) hnext rfl
        simp only [afterCall, if_neg hret, List.eraseIdx_set_eq] at hclosed
        rw [afterCall, if_pos neg_one_lt_zero]
        exact hclosed
  | server i data =>
    simp only [socketStep, Option.bind_eq_bind, Option.bind_eq_some_iff, Option.ite_none_left_eq_some] at h
    obtain ⟨c, hc, -, r, hcall, h⟩ := h
    obtain rfl := Option.some.inj h
    rw [SocketState.proxy_afterCall]
    apply Reachable.step (.server i data) hreach
    simp only [proxyStep, SocketState.proxy_getElem? hc, Option.bind_eq_bind, Option.bind_some]
    change (handlerServer w.config c.conn data).bind _ = _
    rw [hcall]
    rfl
  | hangup i =>
    simp only [socketStep, Option.bind_eq_bind, Option.bind_eq_some_iff] at h
    obtain ⟨c, hc, h⟩ := h
    obtain rfl := Option.some.inj h
    rw [SocketState.proxy_closeConn]
    exact .step (.hangup i) hreach rfl

/-- Apart from the descriptors, the states are those of the runs of the proxy. -/
theorem SocketReachable.proxy {config : Config} {w : SocketState} (h : SocketReachable config w) :
    Reachable config w.proxy := by
  induction h with
  | start sockets _ _ => exact .start
  | step e _ hstep ih => exact socketReachable_step ih hstep

/-! ## Requests to the server -/

/-- A forwarded request is passed to `send_data` with a socket to the server of the same connection; where
none could be connected, the call closes the connection and sends nothing. -/
structure SendsToItsServer (w : SocketState) (c : OpenConn) (r : BrowserResult) : Prop where
  peer : r.forwarded ≠ none → w.sockets c.conn.server.fd.toNat = some (.server c.id)
  closes : c.socket.connectedFd = none → (r.withSend (w.accepts c.conn.server.fd)).Refuses

theorem sends_to_its_server_iff (config : Config) (w : SocketState) (hreach : SocketReachable config w)
    (c : OpenConn) (hc : c ∈ w.conns) (data buf : List UInt8) (request : Request)
    (hrecv : receive c.conn.browser.buf c.conn.browser.offset data = some buf)
    (hparse : parse buf data.length = some request) (hcomplete : ¬request.status < 0) (r : BrowserResult)
    (hcall : handlerBrowser w.config c.conn data = some r) :
    SendsToItsServer w c r ↔ ∃ sock, c.socket = .connected sock := by
  have hinv := hreach.inv
  have hown := hinv.owns c hc
  have hfd : ¬c.conn.server.fd < 0 := by
    rw [hown.fd]
    omega
  rcases handlerBrowser_complete hrecv hparse hcomplete hcall with ⟨hneg, -⟩ | ⟨-, -, -, hforwarded, -⟩
  · exact absurd hneg hfd
  constructor
  · intro hsends
    have hpeer := hsends.peer (by simp [hforwarded])
    rw [hown.fd, Int.toNat_natCast] at hpeer
    cases hsocket : c.socket with
    | connected sock => exact ⟨sock, rfl⟩
    | noSocket | noBind sock | noConnect sock =>
      obtain ⟨a, hstdin⟩ := hinv.stdin
      rw [hsocket] at hpeer
      change w.sockets 0 = _ at hpeer
      rw [hstdin] at hpeer
      cases hpeer
  · rintro ⟨sock, hsocket⟩
    have hsock : c.socket.connectedFd = some sock := by rw [hsocket, EventLoop.ServerSocket.connectedFd]
    constructor
    · intro _
      rw [hown.fd, hsock]
      exact hown.server sock hsock
    · intro hnone
      rw [hsock] at hnone
      cases hnone

/-- Where no server could be connected, the connection is closed only if nothing can be sent to the
descriptor 0. -/
theorem failed_connect_closes_iff (config : Config) (w : SocketState) (hreach : SocketReachable config w)
    (c : OpenConn) (hc : c ∈ w.conns) (hfailed : c.socket.connectedFd = none) (data buf : List UInt8)
    (request : Request) (hrecv : receive c.conn.browser.buf c.conn.browser.offset data = some buf)
    (hparse : parse buf data.length = some request) (hcomplete : ¬request.status < 0) (r : BrowserResult)
    (hcall : handlerBrowser w.config c.conn data = some r) :
    (r.withSend (w.accepts c.conn.server.fd)).Refuses ↔ w.accepts 0 = false := by
  have hown := hreach.inv.owns c hc
  have hfd : c.conn.server.fd = 0 := by
    rw [hown.fd, hfailed]
    rfl
  rw [hfd]
  rcases handlerBrowser_complete hrecv hparse hcomplete hcall with ⟨hneg, -⟩ | ⟨-, hret, hsent, -, -⟩
  · omega
  cases haccepts : w.accepts 0 with
  | false =>
    rw [BrowserResult.withSend, if_neg (by simp [hsent])]
    exact ⟨fun _ => rfl, fun _ => ⟨neg_one_lt_zero, rfl⟩⟩
  | true =>
    rw [BrowserResult.withSend, if_pos (Or.inl rfl)]
    exact ⟨fun hrefuses => absurd hrefuses.ret (not_lt.mpr hret), fun h => by cases h⟩

section Example

/-- The proxy before the first connection, where the descriptor 0 is a socket. -/
def newSockets : Nat → Option Endpoint := fun fd => if fd = 0 then some (.inherited true) else none

lemma socketReachable_new : SocketReachable newConfig ⟨newConfig, [], [], 0, newSockets⟩ := by
  show SocketReachable newConfig ⟨{ newConfig with defaultList := [] }, [], [], 0, newSockets⟩
  apply SocketReachable.start
  · intro fd e h
    unfold newSockets at h
    split at h
    · exact ⟨true, (Option.some.inj h).symm⟩
    · cases h
  · exact ⟨_, rfl⟩

/-- A connection of the proxy just started. -/
def firstConn (server : EventLoop.ServerSocket) : OpenConn :=
  ⟨0, 4, server, proxyConnCreate newConfig (bytes "1.0.0.1") server.connectedFd⟩

lemma exists_firstConn (server : EventLoop.ServerSocket) (hserver : server.connectedFd ≠ some 0)
    (hbrowser : server.connectedFd ≠ some 4) :
    ∃ w, SocketReachable newConfig w ∧ w.config = newConfig ∧ firstConn server ∈ w.conns ∧ w.accepts 0 = true := by
  have hopen : ∃ sockets', openServer (Function.update newSockets 4 (some (.browser 0))) 0 server.connectedFd =
      some sockets' := by
    cases hsock : server.connectedFd with
    | none => exact ⟨_, rfl⟩
    | some sock =>
      rw [hsock] at hserver hbrowser
      have hfree : Function.update newSockets 4 (some (Endpoint.browser 0)) sock = none := by
        rw [Function.update_of_ne (by simpa using hbrowser)]
        simpa [newSockets] using hserver
      exact ⟨_, by rw [openServer, openFd, if_pos hfree]⟩
  obtain ⟨sockets', hsockets'⟩ := hopen
  have hstdin : sockets' 0 = some (.inherited true) := openServer_of_open hsockets' (by decide)
  refine ⟨acceptConn ⟨newConfig, [], [], 0, newSockets⟩ (bytes "1.0.0.1") 4 server sockets', ?_, rfl,
    List.mem_cons_self, ?_⟩
  · apply SocketReachable.step (.accept (bytes "1.0.0.1") 4 server) socketReachable_new
    have hfree : newSockets 4 = none := by decide
    simp only [socketStep, openFd, if_pos hfree, Option.bind_eq_bind, Option.bind_some, hsockets']
    rfl
  · simp [SocketState.accepts, acceptConn, hstdin]

theorem sends_to_its_server_iff_connected : ∃ w r, handlerBrowser newConfig (firstConn (.connected 5)).conn bareData =
    some r ∧ (SendsToItsServer w (firstConn (.connected 5)) r ↔
      ∃ sock, (firstConn (.connected 5)).socket = .connected sock) := by
  obtain ⟨w, hreach, hconfig, hmem, -⟩ := exists_firstConn (.connected 5) (by decide) (by decide)
  have hforwardable : Forwardable newConfig (firstConn (.connected 5)).conn bareRequest :=
    ⟨by decide, bareData, by decide +kernel, fun h => absurd h (by decide)⟩
  obtain ⟨r, hcall⟩ := handlerBrowser_returns (by decide) parse_bareData (by decide) (Or.inr hforwardable)
  refine ⟨w, r, hcall, ?_⟩
  exact sends_to_its_server_iff newConfig w hreach _ hmem bareData bareData bareRequest (by decide) parse_bareData
    (by decide) r (by rwa [hconfig])

/-- Where `connect` failed, a request goes to the descriptor 0. -/
theorem unconnected_request_is_sent :
    ¬∀ (config : Config) (w : SocketState), SocketReachable config w → ∀ c ∈ w.conns,
      ∀ (data buf : List UInt8) (request : Request),
      receive c.conn.browser.buf c.conn.browser.offset data = some buf → parse buf data.length = some request →
      ¬request.status < 0 → ∀ r, handlerBrowser w.config c.conn data = some r → SendsToItsServer w c r := by
  intro h
  obtain ⟨w, hreach, hconfig, hmem, haccepts⟩ := exists_firstConn (.noConnect 5) (by decide) (by decide)
  have hforwardable : Forwardable newConfig (firstConn (.noConnect 5)).conn bareRequest :=
    ⟨by decide, bareData, by decide +kernel, fun h => absurd h (by decide)⟩
  obtain ⟨r, hcall⟩ := handlerBrowser_returns (by decide) parse_bareData (by decide) (Or.inr hforwardable)
  have hsends := h newConfig w hreach _ hmem bareData bareData bareRequest (by decide) parse_bareData (by decide) r
    (by rwa [hconfig])
  have hrefuses := hsends.closes rfl
  have hfd : (firstConn (.noConnect 5)).conn.server.fd = 0 := rfl
  rw [hfd, haccepts, BrowserResult.withSend, if_pos (Or.inl rfl)] at hrefuses
  rcases handlerBrowser_complete (by decide) parse_bareData (by decide) hcall with ⟨hneg, -⟩ | ⟨-, hret, -, -, -⟩
  · exact absurd hneg (by decide)
  · exact absurd hrefuses.ret (not_lt.mpr hret)

end Example

end VideoCDN.Proxy
