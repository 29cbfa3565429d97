import VideoCDN.Http.SizedResponse
import VideoCDN.Proxy.LoopRounds

/-!
# The body of a response in parts

The calls of `handler_server` store the parts of a body one behind the other. The call for the last part
runs the handler for the state of the connection on the whole response, and frees the body.
-/

namespace VideoCDN.Proxy

open CString Buffer Http

/-- The stored body begins with what was received of it. -/
structure Reassembled (s : Server) (c : Nat) (got : List UInt8) : Prop where
  nonneg : 0 ≤ s.toSendLength
  le : s.toSendLength ≤ c
  offset : 0 < s.toSendLength → s.offset = 0
  body : ∃ body, s.responseBody = some body ∧ body.take (c - s.toSendLength).toNat = got

/-- No response is being received. -/
structure Cleared (s : Server) : Prop where
  request : s.request = none
  body : s.responseBody = none
  toSend : s.toSendLength = 0
  offset : s.offset = 0

/-- The result of a call that runs a handler on a response and then clears it. -/
def handedOver (r : ServerResult) (handler : Handler) (header body : List UInt8)
    (out : Config × ProxyConn × List Sent) : ServerResult where
  ret := sentLength out.2.2
  config := out.1
  conn := out.2.1.setServer fun s => { s with responseBody := none, request := none }
  sent := r.sent ++ out.2.2
  dispatched := r.dispatched ++ [⟨handler, header, body⟩]

/-- The call runs the handler for the state of the connection, once, on the header section and the whole
body, and then nothing is left of the response. -/
def RunsHandler (config : Config) (conn : ProxyConn) (data : List UInt8) (x : SizedResponse) : Prop :=
  ∃ handler stored, conn.state.handler = some handler ∧ stored.core = conn.core ∧
    cstr stored.server.response = x.header ∧ Reassembled stored.server x.body.length x.body ∧
    handlerServer config conn data =
      (handler.run config stored x.body).map (handedOver ⟨0, config, stored, [], []⟩ handler x.header x.body) ∧
    ∀ r, handlerServer config conn data = some r →
      r.dispatched = [⟨handler, x.header, x.body⟩] ∧ Cleared r.conn.server

section Transport

variable {s s' : Server} {header got held : List UInt8} {n : Nat}

lemma Idle.of_transport (hidle : Idle s held) (h : s'.transport = s.transport) : Idle s' held := by
  have hrequest : s'.request = s.request := congrArg Transport.request h
  have htoSend : s'.toSendLength = s.toSendLength := congrArg Transport.toSendLength h
  have hoffset : s'.offset = s.offset := congrArg Transport.offset h
  have hbuf : s'.buf = s.buf := congrArg Transport.buf h
  exact ⟨hrequest.trans hidle.request, htoSend.trans hidle.toSend, hoffset.trans hidle.offset, hbuf ▸ hidle.buf⟩

lemma Busy.of_transport (hbusy : Busy s header n got held) (h : s'.transport = s.transport) :
    Busy s' header n got held := by
  have hrequest : s'.request = s.request := congrArg Transport.request h
  have htoSend : s'.toSendLength = s.toSendLength := congrArg Transport.toSendLength h
  have hbody : s'.responseBody = s.responseBody := congrArg Transport.responseBody h
  have hresponse : s'.response = s.response := congrArg Transport.response h
  have hoffset : s'.offset = s.offset := congrArg Transport.offset h
  have hbuf : s'.buf = s.buf := congrArg Transport.buf h
  refine ⟨?_, htoSend.trans hbusy.toSend, hbody.trans hbusy.body, ?_, hoffset.trans hbusy.offset, hbuf ▸ hbusy.buf⟩
  · rw [hrequest]
    exact hbusy.request
  · rw [hresponse]
    exact hbusy.response

lemma Busy.reassembled (hbusy : Busy s header n got []) (hle : got.length ≤ n) : Reassembled s n got := by
  have htoSend := hbusy.toSend
  refine ⟨by omega, by omega, fun _ => hbusy.offset, got, hbusy.body, ?_⟩
  rw [htoSend, show ((n : Int) - (n - got.length)).toNat = got.length by omega, List.take_length]

/-- A connection between two responses. -/
lemma Settled.idle {conn : ProxyConn} (hsettled : Settled conn) (hrequest : conn.server.request = none)
    (hoffset : conn.server.offset = 0) : Idle conn.server [] :=
  ⟨hrequest, hsettled.toSend hrequest, hoffset, conn.server.buf, rfl⟩

end Transport

/-! ## One call -/

/-- The bytes of the response that the calls have received. -/
inductive Receiving (x : SizedResponse) (s : Server) : List UInt8 → Prop
  | idle (h : Idle s []) : Receiving x s []
  | busy {got : List UInt8} (h : Busy s x.header x.body.length got []) : Receiving x s (x.header ++ got)

section Call

variable {x : SizedResponse} {config : Config} {conn : ProxyConn} {data seen rest : List UInt8}

lemma Receiving.of_transport {s s' : Server} (h : Receiving x s seen) (htransport : s'.transport = s.transport) :
    Receiving x s' seen := by
  cases h with
  | idle hidle => exact .idle (hidle.of_transport htransport)
  | busy hbusy => exact .busy (hbusy.of_transport htransport)

variable (config) in
/-- A call for a part of the body stores it. -/
lemma handlerServer_part {header got : List UInt8} {n : Nat} (hbusy : Busy conn.server header n got [])
    (hdata : data ≠ []) (hlen : data.length ≤ maxReqSize) (hlt : got.length + data.length < n) :
    ∃ r, handlerServer config conn data = some r ∧ r.ret = 0 ∧ Busy r.conn.server header n (got ++ data) [] := by
  obtain ⟨tail, hrecv⟩ := receive_empty hbusy.offset hdata hlen
  have hstart : Busy (startCall config conn (data ++ tail) (conn.server.offset + data.length)).conn.server header n got
      data := hbusy.startCall data tail
  obtain ⟨conn', hloop, hbusy', -⟩ := serverLoop_within data.length data.length hstart hlt le_rfl
  rw [handlerServer_eq, hrecv, Option.bind_some, hloop]
  exact ⟨_, rfl, rfl, hbusy'⟩

/-- The rest of the body is stored, and the loop ends with the handler. -/
lemma serverLoop_complete (recvlen fuel : Nat) {r : ServerResult} {header got part : List UInt8} {n : Nat}
    (hbusy : Busy r.conn.server header n got part) (hpart : part ≠ []) (hlen : got.length + part.length = n)
    (hret : r.ret ≠ -1) {handler : Handler} (hhandler : r.conn.state.handler = some handler) :
    ∃ stored, stored.core = r.conn.core ∧ Busy stored.server header n (got ++ part) [] ∧
      serverLoop recvlen (fuel + 1) r =
        (handler.run r.config stored (got ++ part)).map (handedOver r handler header (got ++ part)) := by
  have hpos := List.length_pos_of_ne_nil hpart
  have hoffset : 0 < r.conn.server.offset := by
    rw [hbusy.offset]
    omega
  rw [← List.append_nil part] at hbusy
  obtain ⟨stored, hdrain, hstored, hcore⟩ := drainBody_busy hbusy hpart (Or.inr hlen)
  refine ⟨stored, hcore, hstored, ?_⟩
  have hstate : stored.state.handler = some handler := by
    rw [state_eq_of_core hcore]
    exact hhandler
  have hdispatch := dispatch_busy (r := { r with conn := stored }) hstored (by simpa using hlen)
  simp only [hstate] at hdispatch
  rw [serverLoop_ready hoffset hbusy.isReady hret, hdrain, Option.bind_some, afterDrain, hdispatch]
  cases hrun : handler.run r.config stored (got ++ part) with
  | none => rfl
  | some out =>
    obtain ⟨config', conn', sent⟩ := out
    have hzero : conn'.server.offset = 0 :=
      (congrArg Transport.offset (Handler.run_transport hrun)).trans hstored.offset
    simp only [Option.map_some, Option.bind_eq_bind, Option.bind_some]
    rw [if_pos (by exact hzero.le)]
    rfl

variable (config) in
/-- A call that gets past the header section is left with a part of the body to store. -/
lemma call_busy (hfirst : x.FieldFirst) (hint : x.body.length + 1 < 2 ^ 31) (hfits : x.header.length < maxReqSize)
    (hseen : Receiving x conn.server seen) (hdata : data ≠ []) (hlen : data.length ≤ maxReqSize)
    (hsplit : seen ++ data ++ rest = x.text) (hwhole : x.header.length ≤ (seen ++ data).length) :
    ∃ got part fuel r, seen ++ data = x.header ++ (got ++ part) ∧ got ++ part ++ rest = x.body ∧
      (got = [] ∨ part = data) ∧ handlerServer config conn data = serverLoop data.length (fuel + 1) r ∧
      Busy r.conn.server x.header x.body.length got part ∧ r.conn.core = conn.core ∧
      r = ⟨0, config, r.conn, [], []⟩ := by
  obtain ⟨body, hbody⟩ : x.header <+: seen ++ data :=
    List.prefix_of_prefix_length_le ⟨x.body, rfl⟩ ⟨rest, hsplit⟩ hwhole
  have hrest : body ++ rest = x.body := by
    rw [← hbody, List.append_assoc, SizedResponse.text, List.append_cancel_left_eq] at hsplit
    exact hsplit
  cases hseen with
  | idle hidle =>
    rw [List.nil_append] at hbody
    obtain ⟨tail, hrecv⟩ := receive_empty hidle.offset hdata hlen
    obtain ⟨fuel, hfuel⟩ := Nat.exists_eq_add_of_lt (List.length_pos_of_ne_nil hdata)
    have hstart : Idle (startCall config conn (data ++ tail) (conn.server.offset + data.length)).conn.server
        (x.header ++ body) := by
      rw [hbody]
      exact hidle.startCall data tail
    have hwithin : x.header.length ≤ data.length := by simpa using hwhole
    have hstates : StatesBody x.header x.body.length := ⟨hfirst.statesLength (by omega), hint⟩
    rcases serverLoop_header data.length x.isResponseHeader hfits hstart hwithin (by simp [startCall]) with
      ⟨-, hno⟩ | ⟨n, conn', hn, hloop, hbusy, hcore⟩
    · exact absurd ⟨_, hstates⟩ hno
    · have hsame : n = x.body.length := hn.unique x.isResponseHeader hstates
      subst hsame
      rw [Nat.zero_add] at hfuel
      refine ⟨[], body, fuel, ⟨0, config, conn', [], []⟩, by rw [List.nil_append, List.nil_append, hbody], hrest,
        Or.inl rfl, ?_, hbusy, hcore, rfl⟩
      rw [handlerServer_eq, hrecv, Option.bind_some, hloop, hfuel]
      rfl
  | busy hbusy =>
    obtain ⟨tail, hrecv⟩ := receive_empty hbusy.offset hdata hlen
    rename_i got
    rw [List.append_assoc, List.append_cancel_left_eq] at hbody
    refine ⟨got, data, data.length, startCall config conn (data ++ tail) (conn.server.offset + data.length),
      List.append_assoc _ _ _, by rw [← hbody]; exact hrest, Or.inr rfl, ?_, hbusy.startCall data tail, rfl, rfl⟩
    rw [handlerServer_eq, hrecv, Option.bind_some]

variable (config) in
/-- A call before the last byte stores what it receives. -/
lemma call_within (hfirst : x.FieldFirst) (hint : x.body.length + 1 < 2 ^ 31) (hfits : x.header.length < maxReqSize)
    (hseen : Receiving x conn.server seen) (hdata : data ≠ []) (hlen : data.length ≤ maxReqSize)
    (hsplit : seen ++ data ++ rest = x.text) (hwhole : x.header.length ≤ (seen ++ data).length) (hrest : rest ≠ []) :
    ∃ r, handlerServer config conn data = some r ∧ r.ret = 0 ∧ r.dispatched = [] ∧
      Busy r.conn.server x.header x.body.length ((seen ++ data).drop x.header.length) [] := by
  obtain ⟨got, part, fuel, r, hparts, hbody, -, hcall, hbusy, -, hr⟩ :=
    call_busy config hfirst hint hfits hseen hdata hlen hsplit hwhole
  have hpos := List.length_pos_of_ne_nil hrest
  have hbodylen := congrArg List.length hbody
  rw [List.length_append, List.length_append] at hbodylen
  have hret : r.ret = 0 := by rw [hr]
  have hdispatched : r.dispatched = [] := by rw [hr]
  obtain ⟨conn', hloop, hbusy', -⟩ := serverLoop_within data.length fuel hbusy (by omega) hret.ge
  refine ⟨{ r with conn := conn' }, by rw [hcall, hloop], hret, hdispatched, ?_⟩
  rw [hparts, List.drop_left]
  exact hbusy'

/-- The call for the last byte runs the handler. -/
lemma call_last (hfirst : x.FieldFirst) (hint : x.body.length + 1 < 2 ^ 31) (hfits : x.header.length < maxReqSize)
    (hbody : x.body ≠ []) (hsettled : Settled conn) (hseen : Receiving x conn.server seen) (hdata : data ≠ [])
    (hlen : data.length ≤ maxReqSize) (hsplit : seen ++ data = x.text)
    (hwhole : x.header.length ≤ (seen ++ data).length) : RunsHandler config conn data x := by
  obtain ⟨got, part, fuel, r, -, hall, hpart, hcall, hbusy, hcore, hr⟩ :=
    call_busy config hfirst hint hfits hseen hdata hlen ((List.append_nil _).trans hsplit) hwhole
  rw [List.append_nil] at hall
  have hpart' : part ≠ [] := by
    rcases hpart with rfl | rfl
    · rw [List.nil_append] at hall
      rwa [hall]
    · exact hdata
  have hlength := congrArg List.length hall
  rw [List.length_append] at hlength
  obtain ⟨handler, hhandler⟩ := State.exists_handler hsettled.state
  have hstate : r.conn.state.handler = some handler := by
    rw [state_eq_of_core hcore]
    exact hhandler
  obtain ⟨stored, hstored, hbusy', hloop⟩ :=
    serverLoop_complete data.length fuel hbusy hpart' hlength (by rw [hr]; simp) hstate
  rw [hall] at hbusy' hloop
  have hresult : handlerServer config conn data =
      (handler.run config stored x.body).map (handedOver ⟨0, config, stored, [], []⟩ handler x.header x.body) := by
    rw [hcall, hloop, hr]
    rfl
  refine ⟨handler, stored, hhandler, hstored.trans hcore, hbusy'.response, hbusy'.reassembled le_rfl, hresult, ?_⟩
  intro r' hr'
  rw [hresult] at hr'
  obtain ⟨⟨config', conn', sent⟩, hrun, rfl⟩ := Option.map_eq_some_iff.mp hr'
  have htransport := Handler.run_transport hrun
  have htoSend : conn'.server.toSendLength = stored.server.toSendLength := congrArg Transport.toSendLength htransport
  have hoffset : conn'.server.offset = stored.server.offset := congrArg Transport.offset htransport
  refine ⟨rfl, rfl, rfl, htoSend.trans ?_, hoffset.trans hbusy'.offset⟩
  rw [hbusy'.toSend, Int.sub_self]

end Call

/-! ## All calls -/

/-- The calls before the one for the last byte store what they receive. -/
lemma after_receiving {x : SizedResponse} (hfirst : x.FieldFirst) (hint : x.body.length + 1 < 2 ^ 31)
    (hfits : x.header.length < maxReqSize) (env : Interleaving) (n : Nat) {conn : ProxyConn}
    {chunks : List (List UInt8)} {seen rest : List UInt8} (hsettled : Settled conn)
    (hseen : Receiving x conn.server seen) (hresults : AreResults chunks)
    (hsplit : seen ++ chunks.flatten ++ rest = x.text) (hrest : rest ≠ [])
    (hwhole : ∀ first ∈ chunks.head?, x.header.length ≤ (seen ++ first).length) :
    ∃ conn', env.after n conn chunks = some conn' ∧ Settled conn' ∧
      Receiving x conn'.server (seen ++ chunks.flatten) := by
  induction chunks generalizing n conn seen with
  | nil =>
    rw [List.flatten_nil, List.append_nil]
    exact ⟨conn, rfl, hsettled, hseen⟩
  | cons data chunks ih =>
    obtain ⟨hdata, hlen⟩ := hresults.head
    have hbetween := env.between n conn
    have hhere : x.header.length ≤ (seen ++ data).length := hwhole data rfl
    have hsplit' : seen ++ data ++ (chunks.flatten ++ rest) = x.text := by
      rw [← hsplit, List.flatten_cons]
      simp
    obtain ⟨r, hcall, hret, -, hbusy⟩ := call_within (env.before n conn).1 hfirst hint hfits
      (hseen.of_transport hbetween.transport) hdata hlen hsplit' hhere (List.append_ne_nil_of_right_ne_nil _ hrest)
    have hnext : Receiving x r.conn.server (seen ++ data) := by
      obtain ⟨body, hbody⟩ : x.header <+: seen ++ data :=
        List.prefix_of_prefix_length_le ⟨x.body, rfl⟩ ⟨chunks.flatten ++ rest, hsplit'⟩ hhere
      rw [← hbody, List.drop_left] at hbusy
      rw [← hbody]
      exact .busy hbusy
    obtain ⟨conn', hafter, hsettled', hseen'⟩ := ih (n + 1) (handlerServer_settled (hbetween.settled hsettled) hcall)
      hnext hresults.tail (by rw [List.append_assoc]; exact hsplit') fun first _ => by
        rw [List.length_append]
        omega
    refine ⟨conn', ?_, hsettled', ?_⟩
    · have hopen : ¬r.ret < 0 := by omega
      have hcall' : env.call n conn data = some r := hcall
      rw [Interleaving.after, hcall', Option.bind_eq_bind, Option.bind_some, if_neg hopen, hafter]
    · rw [List.flatten_cons, ← List.append_assoc]
      exact hseen'

/-- The body of a response is put together from any parts. Before its last byte every call stores what it
receives, and the call for the last byte runs the handler. -/
theorem body_reassembled (config : Config) (w : ProxyState) (hreach : Reachable config w) (conn : ProxyConn)
    (hconn : conn ∈ w.conns) (hrequest : conn.server.request = none) (hoffset : conn.server.offset = 0)
    (x : SizedResponse) (hfirst : x.FieldFirst) (hbody : x.body ≠ []) (hint : x.body.length + 1 < 2 ^ 31)
    (hfits : x.header.length < maxReqSize) (env : Interleaving) (before : List (List UInt8)) (data : List UInt8)
    (later : List (List UInt8)) (hresults : AreResults (before ++ data :: later))
    (hsplit : (before ++ data :: later).flatten = x.text)
    (hwhole : ∀ first ∈ (before ++ data :: later).head?, x.header.length ≤ first.length) :
    ∃ c, env.after 0 conn before = some c ∧
      (later ≠ [] → ∃ r, env.call before.length c data = some r ∧ 0 ≤ r.ret ∧ r.dispatched = [] ∧
        Reassembled r.conn.server x.body.length ((before ++ [data]).flatten.drop x.header.length)) ∧
      (later = [] → RunsHandler (env.before before.length c).1 (env.before before.length c).2 data x) := by
  obtain ⟨hdata, hlen⟩ := hresults data (by simp)
  have hsplit' : before.flatten ++ data ++ later.flatten = x.text := by
    rw [← hsplit]
    simp
  have hseen : Receiving x conn.server [] := .idle ((hreach.settled conn hconn).idle hrequest hoffset)
  have hfront : ∀ first ∈ before.head?, x.header.length ≤ first.length := fun first hhead =>
    hwhole first (Option.mem_def.mpr (by rw [List.head?_append, Option.mem_def.mp hhead, Option.some_or]))
  have hhere : x.header.length ≤ (before.flatten ++ data).length := by
    rw [List.length_append]
    cases before with
    | nil => simpa using hwhole data rfl
    | cons first before =>
      have hle := hfront first rfl
      rw [List.flatten_cons, List.length_append]
      omega
  have hbefore : [] ++ before.flatten ++ (data ++ later.flatten) = x.text := by
    rw [List.nil_append, ← List.append_assoc, hsplit']
  obtain ⟨c, hafter, hsettled, hreceiving⟩ := after_receiving hfirst hint hfits env 0 (hreach.settled conn hconn) hseen
    (fun d hd => hresults d (List.mem_append_left _ hd)) hbefore (List.append_ne_nil_of_left_ne_nil hdata _) hfront
  rw [List.nil_append] at hreceiving
  have hbetween := env.between before.length c
  have hreceiving' := hreceiving.of_transport hbetween.transport
  refine ⟨c, hafter, fun hlater => ?_, fun hlater => ?_⟩
  · have hleft : later.flatten ≠ [] := by
      obtain ⟨next, later, rfl⟩ := List.exists_cons_of_ne_nil hlater
      have hnext := (hresults next (by simp)).1
      rw [List.flatten_cons]
      exact List.append_ne_nil_of_left_ne_nil hnext _
    obtain ⟨r, hcall, hret, hdispatched, hbusy⟩ :=
      call_within (env.before before.length c).1 hfirst hint hfits hreceiving' hdata hlen hsplit' hhere hleft
    refine ⟨r, hcall, hret.ge, hdispatched, ?_⟩
    rw [List.flatten_append, List.flatten_singleton]
    apply hbusy.reassembled
    have htext := congrArg List.length hsplit'
    simp only [SizedResponse.text, List.length_append] at htext
    rw [List.length_drop, List.length_append]
    omega
  · subst hlater
    rw [List.flatten_nil, List.append_nil] at hsplit'
    exact call_last hfirst hint hfits hbody (hbetween.settled hsettled) hreceiving' hdata hlen hsplit' hhere

section Example

/-- The response with a page. -/
def sizedPage : SizedResponse where
  lines := [bytes "HTTP/1.1 200 OK", bytes "Content-Length: 2"]
  body := bytes "ok"
  isLine := by decide
  lengthLine := ⟨bytes "Content-Length: ", by decide⟩

lemma sizedPage_fieldFirst : sizedPage.FieldFirst :=
  ⟨[bytes "HTTP/1.1 200 OK"], bytes "Content-Length: ", [], by decide⟩

/-- Nothing happens between the calls. -/
def quiet : Interleaving := ⟨fun _ conn => (newConfig, conn), fun _ conn => .refl conn⟩

/-- A page of three bytes. -/
def threeBytes : SizedResponse where
  lines := [bytes "HTTP/1.1 200 OK", bytes "Content-Length: 3"]
  body := bytes "yes"
  isLine := by decide
  lengthLine := ⟨bytes "Content-Length: ", by decide⟩

lemma threeBytes_fieldFirst : threeBytes.FieldFirst :=
  ⟨[bytes "HTTP/1.1 200 OK"], bytes "Content-Length: ", [], by decide⟩

/-- The first byte arrives with the header section, the second stays stored, and the third is the last. -/
theorem body_reassembled_page :
    (∃ c, quiet.after 0 (proxyConnCreate newConfig (bytes "1.0.0.1") (some 5)) [threeBytes.header ++ bytes "y"] =
        some c ∧ ∃ r, quiet.call 1 c (bytes "e") = some r ∧ 0 ≤ r.ret ∧ r.dispatched = [] ∧
          Reassembled r.conn.server 3 (bytes "ye")) ∧
      ∃ c, quiet.after 0 (proxyConnCreate newConfig (bytes "1.0.0.1") (some 5))
          [threeBytes.header ++ bytes "y", bytes "e"] = some c ∧
        RunsHandler (quiet.before 2 c).1 (quiet.before 2 c).2 (bytes "s") threeBytes := by
  constructor
  · obtain ⟨c, hafter, hwithin, -⟩ := body_reassembled newConfig _ reachable_one _ (List.mem_singleton.mpr rfl) rfl rfl
      threeBytes threeBytes_fieldFirst (by decide) (by decide) (by decide) quiet [threeBytes.header ++ bytes "y"]
      (bytes "e") [bytes "s"] (by unfold AreResults; decide) (by decide) (by decide)
    exact ⟨c, hafter, hwithin (List.cons_ne_nil _ _)⟩
  · obtain ⟨c, hafter, -, hlast⟩ := body_reassembled newConfig _ reachable_one _ (List.mem_singleton.mpr rfl) rfl rfl
      threeBytes threeBytes_fieldFirst (by decide) (by decide) (by decide) quiet
      [threeBytes.header ++ bytes "y", bytes "e"] (bytes "s") [] (by unfold AreResults; decide) (by decide) (by decide)
    exact ⟨c, hafter, hlast rfl⟩

/-- After the call for the last byte the body is no longer stored. -/
theorem body_freed_after_last_call :
    ¬∀ (config : Config) (w : ProxyState), Reachable config w → ∀ conn ∈ w.conns, conn.server.request = none →
      conn.server.offset = 0 → ∀ x : SizedResponse, x.FieldFirst → x.body ≠ [] → x.body.length + 1 < 2 ^ 31 →
      x.header.length < maxReqSize → ∀ (env : Interleaving) (before : List (List UInt8)) (data : List UInt8)
      (later : List (List UInt8)), AreResults (before ++ data :: later) →
      (before ++ data :: later).flatten = x.text →
      (∀ first ∈ (before ++ data :: later).head?, x.header.length ≤ first.length) →
      ∃ c r, env.after 0 conn before = some c ∧ env.call before.length c data = some r ∧
        Reassembled r.conn.server x.body.length ((before ++ [data]).flatten.drop x.header.length) := by
  intro h
  obtain ⟨c, r, hafter, hcall, hreassembled⟩ := h newConfig _ reachable_one _ (List.mem_singleton.mpr rfl) rfl rfl
    sizedPage sizedPage_fieldFirst (by decide) (by decide) (by decide) quiet [] sizedPage.text []
    (by unfold AreResults; decide) (by decide) (by decide)
  obtain rfl := Option.some.inj hafter
  have hfreed : (quiet.call 0 (proxyConnCreate newConfig (bytes "1.0.0.1") (some 5)) sizedPage.text).map
      (fun r => r.conn.server.responseBody) = some none := by decide +kernel
  have hcall' : quiet.call 0 (proxyConnCreate newConfig (bytes "1.0.0.1") (some 5)) sizedPage.text = some r := hcall
  rw [hcall', Option.map_some, Option.some.injEq] at hfreed
  obtain ⟨body, hbody, -⟩ := hreassembled.body
  rw [hfreed] at hbody
  cases hbody

end Example

end VideoCDN.Proxy
