import Mathlib.Logic.Relation
import VideoCDN.Http.NolistRewrite
import VideoCDN.Proxy.ResponseStream

/-!
# Requests and responses in any order

The browser may send a request before earlier ones are answered, and the server answers in the
order of the requests. Which handler gets a response depends on the state of the connection alone,
and every request overwrites it. So the handlers fit the responses as long as no request of one
kind arrives while one of another kind, or one for a manifest, is outstanding.
-/

namespace VideoCDN.Proxy

open CString Buffer Http

namespace Manifest

/-- A byte of a method or a path. -/
def IsWord (s : List UInt8) : Prop := ∀ b ∈ s, b ≠ 32 ∧ b ≠ 10

instance (s : List UInt8) : Decidable (IsWord s) := List.decidableBAll (fun b : UInt8 => b ≠ 32 ∧ b ≠ 10) s

/-- The URI of the request line ends in `.f4m`. -/
def HasManifestUri (x : List UInt8) : Prop :=
  ∃ method path rest, x = method ++ 32 :: (path ++ bytes ".f4m " ++ rest) ∧ IsWord method ∧ IsWord path

/-- The URI of the request line ends in `.f4m`, the method does not, and no NUL is in front of this end. -/
def AsksManifest (x : List UInt8) : Prop :=
  ∃ method path rest, x = method ++ 32 :: (path ++ bytes ".f4m " ++ rest) ∧ IsWord method ∧ IsWord path ∧
    ¬bytes ".f4m" <:+ method ∧ IsString method ∧ IsString path

/-- The URI of the request line, what is between its first two spaces. -/
def lineUri (x : List UInt8) : List UInt8 :=
  (((x.takeWhile (· ≠ 10)).dropWhile (· ≠ 32)).drop 1).takeWhile (· ≠ 32)

end Manifest

/-- A request that was sent to the server: the handler for its answer, the browser's request it is
sent for, and whether it asks for a full manifest. -/
structure Outstanding where
  kind : Handler
  index : Nat
  full : Bool
  deriving DecidableEq

/-- A response that was received, the handlers that were called, and what was sent to the browser. -/
structure Answer where
  request : Outstanding
  response : Response
  dispatched : List Dispatched
  toBrowser : List (List UInt8)

/-- A connection with the requests that the server has not answered yet, the number of requests
the browser sent, and the responses that were received. -/
structure World where
  config : Config
  conn : ProxyConn
  queue : List Outstanding
  requests : Nat
  log : List Answer

/-- The handler for the answer to a request of the browser. -/
def kindOf : ReqUri → Handler
  | .f4m => .f4m
  | .chunk => .chunk
  | _ => .html

/-- What was sent to one of the peers. -/
def sentTo (peer : Peer) (sent : List Sent) : List (List UInt8) :=
  (sent.filter fun s => s.peer = peer).map Sent.data

/-- A request that the proxy itself sends while it handles an answer. It is for the manifest without its
bitrates when its URI says so. -/
def ownRequest (index : Nat) (data : List UInt8) : Outstanding :=
  ⟨.f4mNolist, index, !decide (bytes "_nolist.f4m" <:+ Manifest.lineUri data)⟩

/-- The browser's request was forwarded. -/
def World.afterRequest (w : World) (request : Request) (r : BrowserResult) : World :=
  { w with
    config := r.config
    conn := r.conn
    queue := w.queue ++ [⟨kindOf (checkType request), w.requests, checkType request = .f4m⟩]
    requests := w.requests + 1 }

/-- The first outstanding request was answered, where `queue` are the others. -/
def World.afterResponse (w : World) (o : Outstanding) (queue : List Outstanding) (x : Response) (run : ServerRun) :
    World :=
  { w with
    config := run.config
    conn := run.conn
    queue := queue ++ (sentTo .server run.sent).map (ownRequest o.index)
    log := w.log ++ [⟨o, x, run.dispatched, sentTo .browser run.sent⟩] }

inductive Event
  | request (data : List UInt8) (request : Request)
  | response (x : Response) (chunks : List (List UInt8))

/-- A whole request arrives and is forwarded, or the server answers the first outstanding request
and the whole response arrives. -/
inductive Step : World → Event → World → Prop
  | request (w : World) (data : List UInt8) (request : Request) (r : BrowserResult)
      (hdata : IsHeaderSection data) (hcall : handlerBrowser w.config w.conn data = some r) (hret : ¬r.ret < 0)
      (hforwarded : r.forwarded = some request) :
      Step w (.request data request) (w.afterRequest request r)
  | response (w : World) (x : Response) (chunks : List (List UInt8)) (run : ServerRun) (o : Outstanding)
      (queue : List Outstanding) (hqueue : w.queue = o :: queue) (hchunks : AreResults chunks)
      (hsplit : chunks.flatten = x.text) (hrun : serverRun w.config w.conn chunks = some run) :
      Step w (.response x chunks) (w.afterResponse o queue x run)

/-- A request arrives only while all outstanding ones are of its kind, and one for a manifest only
while none is outstanding and with a URI that ends in `.f4m`. A response is not cut in its header section,
states its length and can be handled. -/
def Meets (w : World) : Event → Prop
  | .request data request => (∀ o ∈ w.queue, o.kind = kindOf (checkType request)) ∧
      (checkType request = .f4m → w.queue = [] ∧ Manifest.AsksManifest data)
  | .response x chunks => (∀ n ∈ arrived 0 chunks, ¬CutsHeader [x] n) ∧ StatesBody x.header x.body.length ∧
      (respond w.config w.conn x.header x.body).isSome

/-- A connection before any request. -/
def start (config : Config) (conn : ProxyConn) : World := ⟨config, conn, [], 0, []⟩

/-- The requests of the browser that were answered, in the order of the answers. -/
def answered (log : List Answer) : List Nat := (log.filter fun a => a.toBrowser ≠ []).map fun a => a.request.index

/-- Every response went to the handler of its request's kind and to no other, the browser's requests
are answered once each and in order, by the response itself, and no full manifest was sent to the
browser. -/
structure Correct (w : World) : Prop where
  handlers : ∀ a ∈ w.log, a.dispatched = [⟨a.request.kind, a.response.header, a.response.body⟩]
  order : answered w.log ++ w.queue.map Outstanding.index = List.range w.requests
  relayed : ∀ a ∈ w.log, a.toBrowser = [] ∨ a.toBrowser = [a.response.header, a.response.body]
  manifests : ∀ a ∈ w.log, a.request.full = true → a.toBrowser = []

/-! ## One handler -/

namespace Manifest

lemma AsksManifest.append {x : List UInt8} (h : AsksManifest x) (rest : List UInt8) : AsksManifest (x ++ rest) := by
  obtain ⟨method, path, tail, rfl, h⟩ := h
  exact ⟨method, path, tail ++ rest, by simp, h⟩

/-- What ends in a space is found only at the end of a word and the space behind it. -/
lemma nil_of_blank {s w pre post : List UInt8} (hs : IsWord s) (h : pre ++ (w ++ [32]) ++ post = s ++ [32]) :
    post = [] := by
  rcases List.eq_nil_or_concat post with hnil | ⟨post, b, rfl⟩
  · exact hnil
  · rw [List.concat_eq_append, ← List.append_assoc] at h
    have hfront := (List.append_inj' h rfl).1
    exact absurd rfl (hs 32 (by rw [← hfront]; simp)).1

lemma not_infix_blank {w s : List UInt8} (hs : IsWord s) (h : ¬w <:+ s) : ¬w ++ [32] <:+: s ++ [32] := by
  rintro ⟨pre, post, heq⟩
  obtain rfl := nil_of_blank hs heq
  rw [List.append_nil, ← List.append_assoc] at heq
  exact h ⟨pre, List.append_cancel_right heq⟩

lemma not_prefix_blank {w s : List UInt8} (hs : IsWord (s ++ w)) {j : Nat} (hj : j < s.length) :
    ¬w ++ [32] <+: (s ++ (w ++ [32])).drop j := by
  rintro ⟨post, hpost⟩
  have hsplit : (s ++ (w ++ [32])).take j ++ (w ++ [32]) ++ post = (s ++ w) ++ [32] := by
    rw [List.append_assoc, hpost, List.take_append_drop, List.append_assoc]
  obtain rfl := nil_of_blank hs hsplit
  have hlength := congrArg List.length hsplit
  simp only [List.append_nil, List.length_append, List.length_take, List.length_singleton] at hlength
  omega

lemma lineUri_eq {method uri : List UInt8} (hmethod : IsWord method) (huri : IsWord uri) (rest : List UInt8) :
    lineUri (method ++ 32 :: (uri ++ 32 :: rest)) = uri := by
  have hline : ∀ {s : List UInt8}, IsWord s → ∀ b ∈ s, decide (b ≠ 10) = true := fun hs b hb =>
    decide_eq_true (hs b hb).2
  have hblank : ∀ {s : List UInt8}, IsWord s → ∀ b ∈ s, decide (b ≠ 32) = true := fun hs b hb =>
    decide_eq_true (hs b hb).1
  unfold lineUri
  rw [List.takeWhile_append_of_pos (hline hmethod), List.takeWhile_cons_of_pos (by decide),
    List.takeWhile_append_of_pos (hline huri), List.takeWhile_cons_of_pos (by decide),
    List.dropWhile_append_of_pos (hblank hmethod), List.dropWhile_cons_of_neg (by decide), List.drop_one,
    List.tail_cons, List.takeWhile_append_of_pos (hblank huri), List.takeWhile_cons_of_neg (by decide),
    List.append_nil]

end Manifest

/-- The request for the nolist manifest, when the saved one can be changed to it. -/
lemma replaceF4mToNolist_uri {saved saved' : List UInt8} {ret : Int} (hsaved : Manifest.AsksManifest saved)
    (h : replaceF4mToNolist saved = some (ret, saved')) :
    bytes "_nolist.f4m" <:+ Manifest.lineUri (cstr saved') ∧ cstr saved' ≠ [] := by
  obtain ⟨method, path, rest, rfl, hmethod, hpath, hsuffix, hmethodString, hpathString⟩ := hsaved
  have hold : bytes ".f4m " = bytes ".f4m" ++ [32] := by decide
  have hnew : bytes "_nolist.f4m " = bytes "_nolist.f4m" ++ [32] := by decide
  have hext : Manifest.IsWord (bytes "_nolist.f4m") := by decide
  have hstring : cstr (method ++ 32 :: (path ++ bytes ".f4m " ++ rest)) =
      method ++ 32 :: (path ++ bytes ".f4m " ++ cstr rest) := by
    have hfront : IsString (method ++ 32 :: (path ++ bytes ".f4m ")) := by
      apply hmethodString.append
      exact (show IsString [32] by decide).append (hpathString.append (by decide))
    have happend := cstr_append _ rest hfront
    simpa [List.append_assoc] using happend
  -- the first occurrence is the end of the URI
  have hword : Manifest.IsWord (path ++ bytes ".f4m") := fun b hb =>
    (List.mem_append.mp hb).elim (hpath b) ((by decide : Manifest.IsWord (bytes ".f4m")) b)
  have hfirst : ∀ j < path.length, ¬bytes ".f4m " <+: (path ++ bytes ".f4m " ++ []).drop j := by
    intro j hj
    rw [List.append_nil, hold]
    exact Manifest.not_prefix_blank hword hj
  have hreplaced : cstr saved' = method ++ 32 :: (path ++ bytes "_nolist.f4m" ++ 32 :: cstr rest) := by
    rw [cstr_replaceF4mToNolist h, hstring, hold,
      replaceFirst_append_cons _ (by decide) (Manifest.not_infix_blank hmethod hsuffix), ← hold,
      replaceFirst_append _ (List.suffix_append path _).isInfix]
    have heq := replaceFirst_eq (bytes "_nolist.f4m ") hfirst
    rw [List.append_nil, List.append_nil] at heq
    rw [heq, hnew]
    simp
  rw [hreplaced]
  refine ⟨?_, by simp⟩
  rw [Manifest.lineUri_eq hmethod (fun b hb => (List.mem_append.mp hb).elim (hpath b) (hext b))]
  exact List.suffix_append _ _

/-- What the handlers but that of a manifest do: header section and body go to the browser. -/
lemma run_forwards {handler : Handler} {config config' : Config} {conn conn' : ProxyConn} {header body : List UInt8}
    {sent : List Sent} (hkind : handler ≠ .f4m) (hheader : IsString header) (hne : header ≠ []) (hbody : body ≠ [])
    (h : handler.run config (conn.withResponse header) body = some (config', conn', sent)) :
    sent = [⟨.browser, header⟩, ⟨.browser, body⟩] ∧ conn'.state = conn.state := by
  obtain ⟨hkept, rfl⟩ := Handler.run_forward hkind h
  refine ⟨?_, hkept.state⟩
  change sendData .browser (cstr header) ++ sendData .browser body = _
  rw [cstr_eq_self _ hheader, sendData, if_neg hne, sendData, if_neg hbody]
  rfl

/-- What the handler of a manifest does: the request for the nolist manifest goes to the server. -/
lemma run_f4m {config config' : Config} {conn conn' : ProxyConn} {header body : List UInt8} {sent : List Sent}
    (hf4m : Manifest.AsksManifest conn.server.f4mRequest)
    (h : Handler.f4m.run config (conn.withResponse header) body = some (config', conn', sent)) :
    conn'.state = .f4mNolist ∧ ∃ data, sent = [⟨.server, data⟩] ∧ bytes "_nolist.f4m" <:+ Manifest.lineUri data := by
  obtain ⟨list, ret, saved, -, hreplace, -, rfl, rfl⟩ := handleRespF4m_eq_some h
  obtain ⟨huri, hne⟩ := replaceF4mToNolist_uri hf4m hreplace
  refine ⟨rfl, cstr saved, ?_, huri⟩
  rw [sendData, if_neg hne]

/-! ## One request -/

/-- A request that arrives whole leaves its kind in the state, and a manifest request is saved. -/
lemma handlerBrowser_state {config : Config} {conn : ProxyConn} {data : List UInt8} {r : BrowserResult}
    {request : Request} (hheld : Holds conn.browser []) (hdata : IsHeaderSection data)
    (h : handlerBrowser config conn data = some r) (hforwarded : r.forwarded = some request) :
    r.conn.state = requestState (checkType request) ∧ r.conn.server.transport = conn.server.transport ∧
      (checkType request = .f4m → r.conn.server.f4mRequest = put conn.server.f4mRequest 0 data) := by
  obtain ⟨buf, request', hrecv, hparse, hcases⟩ := handlerBrowser_cases h
  obtain ⟨hne, hfits⟩ := receive_fits hheld hrecv
  obtain ⟨tail, hbuf⟩ := receive_holds hheld hne hfits
  rw [List.nil_append] at hbuf
  obtain rfl := Option.some.inj (hrecv.symm.trans hbuf)
  have hwhole : parse data data.length = some request' := by
    rw [← parse_whole hdata tail le_rfl, hparse]
  obtain ⟨hposition, hstatus⟩ := parse_whole_frame hdata hwhole
  have hoffset : conn.browser.offset = 0 := hheld.offset
  rcases hcases with ⟨hwaits, -⟩ | ⟨-, -, rfl⟩ | ⟨-, -, ⟨config', conn', sent⟩, hforward, rfl⟩
  · exact absurd hwaits hstatus
  · cases hforwarded
  · obtain rfl := Option.some.inj hforwarded
    refine ⟨rfl, ?_⟩
    rcases forwardRequest_cases hforward with ⟨htype, bitrate, text, chunkName, newBuf, -, -, rfl, -⟩ |
      ⟨-, text, -, -, rfl, -⟩ | ⟨-, hf4m, text, -, -, rfl, -⟩
    · exact ⟨rfl, fun hf4m => by rw [hf4m] at htype; cases htype⟩
    · refine ⟨rfl, fun _ => ?_⟩
      have hrest : conn.browser.offset + data.length - request'.position = 0 := by
        rw [hoffset, hposition]
        omega
      have hmove : moveToFront (data ++ tail) request'.position 0 = data ++ tail := rfl
      have hfetch : fetch (data ++ tail) conn.browser.offset.toNat data.length = data := by
        rw [hoffset, Int.toNat_zero, fetch_eq_take_drop _ (by simp), List.drop_zero, List.take_left]
      change put conn.server.f4mRequest 0 (fetch (moveToFront (data ++ tail) request'.position
        (conn.browser.offset + data.length - request'.position)) conn.browser.offset.toNat data.length) = _
      rw [hrest, hmove, hfetch]
    · exact ⟨rfl, fun h => absurd h hf4m⟩

/-! ## One response -/

lemma serverRun_one {config : Config} {conn : ProxyConn} {chunks : List (List UInt8)} {run : ServerRun}
    {header body : List UInt8} (h : serverRun config conn chunks = some run)
    (hhandled : handled run.dispatched = [(header, body)]) :
    ∃ handler conn', conn.state.handler = some handler ∧ run.dispatched = [⟨handler, header, body⟩] ∧
      handler.run config (conn.withResponse header) body = some (run.config, conn', run.sent) ∧
      run.conn.core = conn'.core := by
  have hall := serverRun_handles h
  rw [hhandled] at hall
  obtain ⟨first, rest, hfirst, hrest, heq⟩ := respondAll_cons_eq_some hall
  obtain rfl := Option.some.inj hrest
  obtain ⟨handler, hstate, hdispatched, conn', hrun, hconn⟩ := respond_dispatched hfirst
  simp only [List.append_nil, ServerRun.mk.injEq] at heq
  obtain ⟨hconfig, hcore, hsent, hsame⟩ := heq
  refine ⟨handler, conn', hstate, by rw [hsame, hdispatched], by rw [hrun, hconfig, hsent], ?_⟩
  rw [hcore, hconn]
  rfl

/-- The next response, where it meets the condition, is handled, and the connection is idle again. -/
lemma serverRun_response {w : World} {x : Response} {chunks : List (List UInt8)} {run : ServerRun}
    (hidle : Idle w.conn.server []) (hmeets : Meets w (.response x chunks)) (hchunks : AreResults chunks)
    (hsplit : chunks.flatten = x.text) (hrun : serverRun w.config w.conn chunks = some run) :
    handled run.dispatched = [(x.header, x.body)] ∧ Idle run.conn.server [] := by
  obtain ⟨huncut, hlength, hrespond⟩ := hmeets
  have hhandled : (respondAll w.config w.conn (pairs [x])).isSome := by
    rw [pairs, List.map_singleton, respondAll_cons_isSome]
    simpa [respondAll, Option.isSome_bind] using hrespond
  have hdeliverable : Deliverable w.config w.conn 0 0 [x] chunks :=
    ⟨huncut, fun y hy => by rwa [List.mem_singleton.mp hy], hhandled⟩
  obtain ⟨run', hrun', hpairs, hidle'⟩ := (run_iff_deliverable (P := fun s => Idle s []) (fun _ h => h) hidle [x]
    hchunks (by simpa [stream] using hsplit)).mpr hdeliverable
  obtain rfl := Option.some.inj (hrun.symm.trans hrun')
  exact ⟨hpairs, hidle'⟩

/-! ## Runs -/

/-- What holds in every state of a run: the outstanding requests are of the kind of the state, one
for a manifest is the only one, and the saved request can be changed. -/
structure Inv (w : World) : Prop where
  correct : Correct w
  browser : Holds w.conn.browser []
  server : Idle w.conn.server []
  state : ∀ o ∈ w.queue, w.conn.state.handler = some o.kind
  single : ∀ o ∈ w.queue, o.kind = .f4m ∨ o.kind = .f4mNolist → w.queue = [o]
  full : ∀ o ∈ w.queue, o.full = true → o.kind = .f4m
  saved : ∀ o ∈ w.queue, o.kind = .f4m → Manifest.AsksManifest w.conn.server.f4mRequest

lemma requestState_handler (type : ReqUri) : (requestState type).handler = some (kindOf type) := by
  cases type <;> rfl

lemma kindOf_eq_f4m {type : ReqUri} (h : kindOf type = .f4m ∨ kindOf type = .f4mNolist) : type = .f4m := by
  cases type with
  | f4m => rfl
  | html => rcases h with h | h <;> cases h
  | chunk => rcases h with h | h <;> cases h
  | uk => rcases h with h | h <;> cases h

lemma inv_start {config : Config} {conn : ProxyConn} (hbrowser : Holds conn.browser [])
    (hserver : Idle conn.server []) : Inv (start config conn) := by
  refine ⟨⟨?_, rfl, ?_, ?_⟩, hbrowser, hserver, ?_, ?_, ?_, ?_⟩
  all_goals simp [start]

lemma inv_request {w : World} {data : List UInt8} {request : Request} {r : BrowserResult} (hw : Inv w)
    (hmeets : Meets w (.request data request)) (hdata : IsHeaderSection data)
    (hcall : handlerBrowser w.config w.conn data = some r) (hret : ¬r.ret < 0)
    (hforwarded : r.forwarded = some request) :
    Inv (w.afterRequest request r) := by
  unfold World.afterRequest
  obtain ⟨hkinds, hmanifest⟩ := hmeets
  obtain ⟨hstate, htransport, hsaved⟩ := handlerBrowser_state hw.browser hdata hcall hforwarded
  have hstream : [] ++ data = data ++ [] := by rw [List.nil_append, List.append_nil]
  obtain ⟨-, -, -, -, hheld, -⟩ := handlerBrowser_forwards hw.browser hdata hstream le_rfl hcall hret
  -- all outstanding requests are of the new one's kind
  have hall : ∀ o ∈ w.queue ++ [⟨kindOf (checkType request), w.requests, checkType request = .f4m⟩],
      o.kind = kindOf (checkType request) := by
    intro o ho
    rcases List.mem_append.mp ho with ho | ho
    · exact hkinds o ho
    · rw [List.mem_singleton.mp ho]
  refine ⟨⟨hw.correct.handlers, ?_, hw.correct.relayed, hw.correct.manifests⟩, hheld, ?_, ?_, ?_, ?_, ?_⟩
  · rw [List.map_append, ← List.append_assoc, hw.correct.order, List.range_succ]
    rfl
  · have hoffset := congrArg Transport.offset htransport
    have hrequest := congrArg Transport.request htransport
    have hsend := congrArg Transport.toSendLength htransport
    exact ⟨hrequest.trans hw.server.request, hsend.trans hw.server.toSend, hoffset.trans hw.server.offset, _, rfl⟩
  · intro o ho
    rw [hall o ho, hstate]
    exact requestState_handler _
  · intro o ho hkind
    rw [hall o ho] at hkind
    have hempty := (hmanifest (kindOf_eq_f4m hkind)).1
    rw [hempty] at ho ⊢
    rw [List.mem_singleton.mp ho]
    rfl
  · intro o ho hfull
    rcases List.mem_append.mp ho with ho | ho
    · exact hw.full o ho hfull
    · rw [List.mem_singleton.mp ho] at hfull ⊢
      rw [decide_eq_true_eq] at hfull
      rw [hfull]
      rfl
  · intro o ho hkind
    rw [hall o ho] at hkind
    have hf4m := kindOf_eq_f4m (Or.inl hkind)
    rw [hsaved hf4m, put_zero]
    exact (hmanifest hf4m).2.append _

lemma inv_response {w : World} {x : Response} {chunks : List (List UInt8)} {run : ServerRun} {o : Outstanding}
    {queue : List Outstanding} (hw : Inv w) (hmeets : Meets w (.response x chunks)) (hqueue : w.queue = o :: queue)
    (hchunks : AreResults chunks) (hsplit : chunks.flatten = x.text)
    (hrun : serverRun w.config w.conn chunks = some run) : Inv (w.afterResponse o queue x run) := by
  unfold World.afterResponse
  have ho : o ∈ w.queue := by rw [hqueue]; exact List.mem_cons_self
  obtain ⟨hhandled, hidle⟩ := serverRun_response hw.server hmeets hchunks hsplit hrun
  obtain ⟨handler, conn', hstate, hdispatched, hhandler, hcore⟩ := serverRun_one hrun hhandled
  have hkind : handler = o.kind := by
    rw [hw.state o ho] at hstate
    exact (Option.some.inj hstate).symm
  have hexpected : run.dispatched = [⟨o.kind, x.header, x.body⟩] := by rw [hdispatched, hkind]
  have hbrowser : run.conn.browser = w.conn.browser := by
    have hsame : run.conn.core.browser = conn'.core.browser := congrArg ProxyConn.browser hcore
    have hkept := Handler.run_browser hhandler
    exact Eq.trans hsame hkept
  have hheader : x.header ≠ [] := List.ne_nil_of_length_pos x.isResponseHeader.endsSearch.length_pos
  have hstate' : run.conn.state = conn'.state := state_eq_of_core hcore
  have horder := hw.correct.order
  rw [hqueue, List.map_cons] at horder
  by_cases hf4m : handler = .f4m
  · -- a manifest: only the proxy's own request is outstanding afterwards
    subst hf4m
    obtain rfl : queue = [] := by
      have hone := hw.single o ho (Or.inl hkind.symm)
      rw [hqueue] at hone
      exact (List.cons.inj hone).2
    obtain ⟨hnext, nolist, hsent, hnolist⟩ := run_f4m (hw.saved o ho hkind.symm) hhandler
    have hserver : sentTo .server run.sent = [nolist] := by rw [hsent]; rfl
    have hnone : sentTo .browser run.sent = [] := by rw [hsent]; rfl
    have hown : ownRequest o.index nolist = ⟨.f4mNolist, o.index, false⟩ := by
      simp [ownRequest, hnolist]
    rw [hserver, hnone]
    simp only [List.nil_append, List.map_cons, List.map_nil, hown]
    refine ⟨⟨?_, ?_, ?_, ?_⟩, by rw [hbrowser]; exact hw.browser, hidle, ?_, ?_, ?_, ?_⟩
    · simpa [or_imp, forall_and] using ⟨hw.correct.handlers, hexpected⟩
    · simpa [answered] using horder
    · simpa [or_imp, forall_and] using hw.correct.relayed
    · simpa [or_imp, forall_and] using hw.correct.manifests
    · simp [hstate', hnext, State.handler]
    · simp
    · simp
    · simp
  · obtain ⟨hsent, hnext⟩ := run_forwards hf4m x.isResponseHeader.isString hheader x.body_ne hhandler
    have hserver : sentTo .server run.sent = [] := by rw [hsent]; rfl
    have hboth : sentTo .browser run.sent = [x.header, x.body] := by rw [hsent]; rfl
    have hrest : ∀ o' ∈ queue, o' ∈ w.queue := fun o' ho' => by
      rw [hqueue]
      exact List.mem_cons_of_mem o ho'
    have hnot : ∀ o' ∈ queue, ¬(o'.kind = .f4m ∨ o'.kind = .f4mNolist) := by
      intro o' ho' hk
      have hone := hw.single o' (hrest o' ho') hk
      rw [hqueue] at hone
      rw [(List.cons.inj hone).2] at ho'
      cases ho'
    rw [hserver, hboth]
    simp only [List.map_nil, List.append_nil]
    refine ⟨⟨?_, ?_, ?_, ?_⟩, by rw [hbrowser]; exact hw.browser, hidle, ?_, ?_, ?_, ?_⟩
    · simpa [or_imp, forall_and] using ⟨hw.correct.handlers, hexpected⟩
    · simpa [answered] using horder
    · simpa [or_imp, forall_and] using hw.correct.relayed
    · intro a ha hfull
      rcases List.mem_append.mp ha with ha | ha
      · exact hw.correct.manifests a ha hfull
      · rw [List.mem_singleton.mp ha] at hfull
        exact absurd (hkind.trans (hw.full o ho hfull)) hf4m
    · intro o' ho'
      rw [hstate', hnext]
      exact hw.state o' (hrest o' ho')
    · exact fun o' ho' hk => absurd hk (hnot o' ho')
    · exact fun o' ho' => hw.full o' (hrest o' ho')
    · exact fun o' ho' hk => absurd (Or.inl hk) (hnot o' ho')

lemma inv_step {w w' : World} {e : Event} (hw : Inv w) (hmeets : Meets w e) (hstep : Step w e w') : Inv w' := by
  cases hstep with
  | request data request r hdata hcall hret hforwarded => exact inv_request hw hmeets hdata hcall hret hforwarded
  | response x chunks run o queue hqueue hchunks hsplit hrun =>
    exact inv_response hw hmeets hqueue hchunks hsplit hrun

/-- In a run whose requests all arrive while only requests of their kind are outstanding, and those
for a manifest while none is, everything is handled and answered as it should. -/
theorem runs_correct (config : Config) (conn : ProxyConn) (hbrowser : Holds conn.browser [])
    (hserver : Idle conn.server []) (w : World)
    (hrun : Relation.ReflTransGen (fun v v' => ∃ e, Step v e v' ∧ Meets v e) (start config conn) w) :
    Correct w := by
  have hinv : Inv w := by
    induction hrun with
    | refl => exact inv_start hbrowser hserver
    | tail _ hstep ih =>
      obtain ⟨e, hstep, hmeets⟩ := hstep
      exact inv_step ih hmeets hstep
  exact hinv.correct

section Example

/-- A request for a manifest. -/
def manifestLines : List (List UInt8) := [bytes "GET /v.f4m HTTP/1.1", bytes "Host: b"]

lemma isHeaderSection_manifest : IsHeaderSection (headerText manifestLines) :=
  ⟨manifestLines, by decide, by decide, rfl⟩

lemma asksManifest_lines : Manifest.AsksManifest (headerText manifestLines) :=
  ⟨bytes "GET", bytes "/v", bytes "HTTP/1.1\r\nHost: b\r\n\r\n", by decide, by decide, by decide, by decide,
    by decide, by decide⟩

lemma newConn_holds : Holds newConn.browser [] := ⟨rfl, [], rfl⟩

lemma pageResponse_uncut : ∀ n ∈ arrived 0 [pageResponse.text], ¬CutsHeader [pageResponse] n := by decide

/-- A whole request of the type, while only requests of its kind are outstanding. -/
def World.ask (w : World) (data : List UInt8) (type : ReqUri) : Option World := do
  let r ← handlerBrowser w.config w.conn data
  let request ← r.forwarded
  if 0 ≤ r.ret ∧ checkType request = type ∧ (∀ o ∈ w.queue, o.kind = kindOf type) ∧ (type = .f4m → w.queue = [])
    then some (w.afterRequest request r)
  else none

/-- A whole response in one `recv`. -/
def World.answer (w : World) (x : Response) : Option World :=
  match w.queue with
  | [] => none
  | o :: queue =>
    if (respond w.config w.conn x.header x.body).isSome then
      (serverRun w.config w.conn [x.text]).map (w.afterResponse o queue x)
    else none

/-- The runs whose steps meet the condition. -/
def Orderly : World → World → Prop := Relation.ReflTransGen fun v v' => ∃ e, Step v e v' ∧ Meets v e

lemma Orderly.ask {v w w' : World} (h : Orderly v w) {data : List UInt8} {type : ReqUri}
    (hdata : IsHeaderSection data) (hmanifest : type = .f4m → Manifest.AsksManifest data)
    (hask : w.ask data type = some w') : Orderly v w' := by
  obtain ⟨r, hcall, hrest⟩ := Option.bind_eq_some_iff.mp hask
  obtain ⟨request, hforwarded, hafter⟩ := Option.bind_eq_some_iff.mp hrest
  split at hafter
  · rename_i hmeets
    obtain ⟨hret, rfl, hkinds, hempty⟩ := hmeets
    obtain rfl := Option.some.inj hafter
    exact h.tail ⟨_, .request w data request r hdata hcall (not_lt.mpr hret) hforwarded, hkinds,
      fun hf4m => ⟨hempty hf4m, hmanifest hf4m⟩⟩
  · cases hafter

lemma Orderly.answer {v w w' : World} (h : Orderly v w) (hanswer : w.answer pageResponse = some w') :
    Orderly v w' := by
  unfold World.answer at hanswer
  split at hanswer
  · cases hanswer
  · rename_i o queue hqueue
    split at hanswer
    · rename_i hrespond
      obtain ⟨run, hrun, rfl⟩ := Option.map_eq_some_iff.mp hanswer
      have hstep := Step.response w pageResponse [pageResponse.text] run o queue hqueue (by unfold AreResults; decide)
        (by simp) hrun
      exact h.tail ⟨_, hstep, pageResponse_uncut, pageResponse_length, hrespond⟩
    · cases hanswer

/-- A manifest is requested, and read before its nolist manifest is shown; then two pages are requested at once. -/
theorem runs_correct_page :
    ∃ w, Relation.ReflTransGen (fun v v' => ∃ e, Step v e v' ∧ Meets v e) (start newConfig newConn) w ∧
      answered w.log = [0, 1, 2] ∧ w.log.length = 4 ∧ Correct w := by
  have h : ((((start newConfig newConn).ask (headerText manifestLines) .f4m).bind fun w₁ =>
      (w₁.answer pageResponse).bind fun w₂ => (w₂.answer pageResponse).bind fun w₃ =>
        (w₃.ask (headerText pageLines) .html).bind fun w₄ => (w₄.ask (headerText pageLines) .html).bind fun w₅ =>
          (w₅.answer pageResponse).bind fun w₆ => (w₆.answer pageResponse).map fun w₇ =>
            (answered w₇.log, w₇.log.length)) = some ([0, 1, 2], 4)) := by
    decide +kernel
  obtain ⟨w₁, h₁, h⟩ := Option.bind_eq_some_iff.mp h
  obtain ⟨w₂, h₂, h⟩ := Option.bind_eq_some_iff.mp h
  obtain ⟨w₃, h₃, h⟩ := Option.bind_eq_some_iff.mp h
  obtain ⟨w₄, h₄, h⟩ := Option.bind_eq_some_iff.mp h
  obtain ⟨w₅, h₅, h⟩ := Option.bind_eq_some_iff.mp h
  obtain ⟨w₆, h₆, h⟩ := Option.bind_eq_some_iff.mp h
  obtain ⟨w₇, h₇, h⟩ := Option.map_eq_some_iff.mp h
  obtain ⟨hanswered, hlength⟩ := Prod.mk.inj h
  have hstart : Orderly (start newConfig newConn) (start newConfig newConn) := .refl
  have hmanifest : Orderly (start newConfig newConn) w₃ :=
    ((hstart.ask isHeaderSection_manifest (fun _ => asksManifest_lines) h₁).answer h₂).answer h₃
  have hpages : Orderly (start newConfig newConn) w₇ :=
    (((hmanifest.ask isHeaderSection_page (fun hf4m => by cases hf4m) h₄).ask isHeaderSection_page
      (fun hf4m => by cases hf4m) h₅).answer h₆).answer h₇
  exact ⟨w₇, hpages, hanswered, hlength, runs_correct newConfig newConn newConn_holds newConn_idle w₇ hpages⟩

/-- A page is requested while a manifest is outstanding: the answer to the manifest request goes
to the handler of pages, and so to the browser. -/
theorem pipelined_request_misdispatches :
    ¬∀ (config : Config) (conn : ProxyConn), Holds conn.browser [] → Idle conn.server [] → ∀ w,
      Relation.ReflTransGen (fun v v' => ∃ e, Step v e v') (start config conn) w → Correct w := by
  intro h
  have hrun : ((handlerBrowser newConfig newConn (headerText manifestLines)).bind fun r =>
      (handlerBrowser r.config r.conn (headerText pageLines)).bind fun r' =>
        (serverRun r'.config r'.conn [pageResponse.text]).map fun run =>
          (decide (r.ret < 0), decide (r'.ret < 0), r.forwarded.map checkType, r'.forwarded.isSome, run.dispatched)) =
      some (false, false, some .f4m, true, [⟨.html, pageResponse.header, pageResponse.body⟩]) := by
    decide +kernel
  obtain ⟨r, hcall, hrun⟩ := Option.bind_eq_some_iff.mp hrun
  obtain ⟨r', hcall', hrun⟩ := Option.bind_eq_some_iff.mp hrun
  obtain ⟨run, hrun, heq⟩ := Option.map_eq_some_iff.mp hrun
  simp only [Prod.mk.injEq, decide_eq_false_iff_not] at heq
  obtain ⟨hret, hret', hforwarded, hforwarded', hdispatched⟩ := heq
  obtain ⟨request, hrequest, htype⟩ := Option.map_eq_some_iff.mp hforwarded
  obtain ⟨request', hrequest'⟩ := Option.isSome_iff_exists.mp hforwarded'
  have hfirst := Step.request (start newConfig newConn) _ request r isHeaderSection_manifest hcall hret hrequest
  have hsecond := Step.request ((start newConfig newConn).afterRequest request r) _ request' r'
    isHeaderSection_page hcall' hret' hrequest'
  have hthird := Step.response (((start newConfig newConn).afterRequest request r).afterRequest request' r')
    pageResponse [pageResponse.text] run _ _ rfl (by unfold AreResults; decide) (by simp) hrun
  have hsteps := Relation.ReflTransGen.tail (r := fun v v' => ∃ e, Step v e v')
    (.tail (.single ⟨_, hfirst⟩) ⟨_, hsecond⟩) ⟨_, hthird⟩
  have hcorrect := h newConfig newConn newConn_holds newConn_idle _ hsteps
  have hkind := hcorrect.handlers _ (List.mem_append_right _ (List.mem_singleton.mpr rfl))
  simp only [htype, hdispatched, List.cons.injEq, Dispatched.mk.injEq] at hkind
  cases hkind.1.1

end Example

end VideoCDN.Proxy
