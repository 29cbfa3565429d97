import VideoCDN.Proxy.RequestStream
import VideoCDN.Proxy.Respond

/-!
# The loop of `handler_server`

Between responses a connection is idle, and from the end of a header section to the end of the
body it is busy. A round of the loop takes a header section, a part of a body, or the rest of a
body, after which the response goes to its handler.
-/

namespace VideoCDN.Proxy

open CString Buffer Http

/-- No response has begun, and the buffer holds the bytes `held`. -/
structure Idle (s : Server) (held : List UInt8) : Prop where
  request : s.request = none
  toSend : s.toSendLength = 0
  offset : s.offset = held.length
  buf : ∃ tail, s.buf = held ++ tail

/-- The response with the given header section has a body of `n` bytes; the bytes `got` of it are
stored. -/
structure Busy (s : Server) (header : List UInt8) (n : Nat) (got held : List UInt8) : Prop where
  request : ∃ request, s.request = some request ∧ request.status = success ∧ request.contentLength = n
  toSend : s.toSendLength = (n : Int) - got.length
  body : s.responseBody = some got
  response : cstr s.response = header
  offset : s.offset = held.length
  buf : ∃ tail, s.buf = held ++ tail

lemma Idle.isReady {s : Server} {held : List UInt8} (h : Idle s held) : s.isReady = true := by
  rw [Server.isReady, h.request]

lemma Busy.isReady {s : Server} {header got held : List UInt8} {n : Nat} (h : Busy s header n got held) :
    s.isReady = true := by
  obtain ⟨request, hrequest, hstatus, -⟩ := h.request
  simp [Server.isReady, hrequest, hstatus, success, needmore]

section Loop

variable {recvlen fuel : Nat} {r r' : ServerResult} {header got todo rest : List UInt8} {n : Nat}

/-- What the loop does after the bytes of a body are stored. -/
def afterDrain (recvlen fuel : Nat) (r : ServerResult) : Option ServerResult := do
  let r ← dispatch r
  if r.conn.server.offset ≤ 0 then return r
  let conn ← parseHeader r.conn recvlen
  if conn.server.isReady then serverLoop recvlen fuel { r with conn := conn } else return { r with conn := conn }

lemma serverLoop_empty (h : r.conn.server.offset = 0) : serverLoop recvlen (fuel + 1) r = some r := by
  rw [serverLoop, if_neg (by omega)]

lemma serverLoop_ready (hoffset : 0 < r.conn.server.offset) (hready : r.conn.server.isReady = true)
    (hret : r.ret ≠ -1) :
    serverLoop recvlen (fuel + 1) r =
      (drainBody r.conn).bind fun conn => afterDrain recvlen fuel { r with conn := conn } := by
  rw [serverLoop, if_pos ⟨hoffset, hready, hret⟩]
  rfl

/-- An idle connection has nothing to store and nothing to hand over. -/
lemma serverLoop_idle (hidle : Idle r.conn.server rest) (hrest : rest ≠ []) (hret : r.ret ≠ -1) :
    serverLoop recvlen (fuel + 1) r = do
      let conn ← parseHeader r.conn recvlen
      if conn.server.isReady then serverLoop recvlen fuel { r with conn := conn }
      else return { r with conn := conn } := by
  have hpos := List.length_pos_of_ne_nil hrest
  have hoffset : ¬r.conn.server.offset ≤ 0 := by
    rw [hidle.offset]
    omega
  have hdrain : drainBody r.conn = some r.conn := by
    rw [drainBody, if_pos (le_of_eq hidle.toSend)]
    rfl
  have hdispatch : dispatch r = some r := by
    simp only [dispatch, hidle.request]
    rfl
  rw [serverLoop_ready (not_le.mp hoffset) hidle.isReady hret, hdrain, Option.bind_some, afterDrain, hdispatch]
  simp only [Option.bind_eq_bind, Option.bind_some, if_neg hoffset]

/-- The header section gives a body of `n` bytes, for which a buffer can be asked for. -/
def StatesBody (header : List UInt8) (n : Nat) : Prop := StatesLength header n ∧ n + 1 < 2 ^ 31

lemma StatesBody.unique {n m : Nat} (hn : StatesBody header n) (hx : IsResponseHeader header)
    (hm : StatesBody header m) : n = m := by
  exact_mod_cast hx.statesLength_unique hn.1 hm.1

/-- A whole header section is taken out of the buffer when it gives a length. -/
lemma parseHeader_whole (hx : IsResponseHeader header) (hfits : header.length < maxReqSize) {conn : ProxyConn}
    (hidle : Idle conn.server (header ++ rest)) (hle : header.length ≤ recvlen) :
    (parseHeader conn recvlen = none ∧ ¬∃ n, StatesBody header n) ∨
      ∃ (n : Nat) (conn' : ProxyConn), StatesBody header n ∧ parseHeader conn recvlen = some conn' ∧
        Busy conn'.server header n [] rest ∧ conn'.core = conn.core := by
  obtain ⟨tail, hbuf⟩ := hidle.buf
  rw [List.append_assoc] at hbuf
  have hscan : scanHeader .start (conn.server.buf.take recvlen) 0 = (.crlfcrlf, header.length) := by
    rw [hbuf, List.take_append, List.take_of_length_le hle]
    exact hx.endsSearch.append _
  have hparse : parseReponse conn.server.buf recvlen =
      (contentLength conn.server.buf).map fun n => { newRequest header.length with contentLength := n } := by
    unfold parseReponse
    simp only [hscan, if_true]
    cases contentLength conn.server.buf <;> rfl
  have hiff : ∀ n : Int, contentLength conn.server.buf = some n ↔ StatesLength header n := by
    intro n
    rw [hbuf]
    exact hx.contentLength_iff _ n
  unfold parseHeader
  simp only [hparse]
  cases hlength : contentLength conn.server.buf with
  | none =>
    refine Or.inl ⟨rfl, ?_⟩
    rintro ⟨n, hn, -⟩
    rw [(hiff n).mpr hn] at hlength
    cases hlength
  | some m =>
    have hstates := (hiff m).mp hlength
    have hsuccess : ¬success < 0 := by decide
    have hroom : ¬maxReqSize ≤ header.length := not_le.mpr hfits
    simp only [Option.map_some, Option.bind_eq_bind, Option.bind_some, newRequest, if_neg hsuccess, hroom, or_false]
    by_cases hbad : m < 0 ∨ 2 ^ 31 ≤ m + 1
    · refine Or.inl ⟨by rw [if_pos hbad], ?_⟩
      rintro ⟨n, hn, hint⟩
      have := hx.statesLength_unique hstates hn
      omega
    · right
      obtain ⟨n, rfl⟩ := Int.eq_ofNat_of_zero_le (show 0 ≤ m by omega)
      have hfetch : fetch conn.server.buf 0 header.length = header := by
        rw [hbuf, fetch_eq_take_drop _ (by simp), List.drop_zero, List.take_left]
      have hoffset : conn.server.offset - header.length = ((header ++ rest).length : Int) - header.length := by
        rw [hidle.offset]
      obtain ⟨tail', hmove⟩ := moveToFront_holds (header ++ rest) tail (n := header.length) (by simp)
      rw [if_neg hbad]
      refine ⟨n, _, ⟨hstates, by omega⟩, rfl, ⟨⟨_, rfl, rfl, rfl⟩, ?_, rfl, ?_, ?_, tail', ?_⟩, rfl⟩
      · simp [ProxyConn.setServer]
      · simp only [ProxyConn.setServer, hfetch, put_zero, List.append_assoc, List.singleton_append]
        exact cstr_append_zero _ _ hx.isString
      · simp [ProxyConn.setServer, hoffset]
      · rw [List.drop_left] at hmove
        simp only [ProxyConn.setServer]
        rw [hoffset, hbuf, ← List.append_assoc, hmove]

/-- The loop no longer gets at the next response: it waits for a header section that it does not
look for again, or it took more bytes for the header section than it had. -/
def Lost (s : Server) : Prop := s.isReady = false ∨ s.offset < 0

/-- The part of a header section is not parsed, or parsed together with old bytes behind it. -/
lemma parseHeader_part (hx : EndsSearch header) {conn conn' : ProxyConn} {held post : List UInt8}
    (hidle : Idle conn.server held) (hheader : header = held ++ post) (hpost : post ≠ [])
    (hle : held.length ≤ recvlen) (h : parseHeader conn recvlen = some conn') : Lost conn'.server := by
  obtain ⟨tail, hbuf⟩ := hidle.buf
  obtain ⟨s, i, hscan⟩ : ∃ s i, scanHeader .start (conn.server.buf.take recvlen) 0 = (s, i) := ⟨_, _, rfl⟩
  unfold parseHeader parseReponse at h
  simp only [hscan] at h
  by_cases hend : s = .crlfcrlf
  · subst hend
    have htake : conn.server.buf.take recvlen = held ++ tail.take (recvlen - held.length) := by
      rw [hbuf, List.take_append, List.take_of_length_le hle]
    rw [htake] at hscan
    have hlt := hx.scan_prefix hheader hpost _ hscan
    have hsuccess : ¬success < 0 := by decide
    simp only [if_true, Option.bind_eq_bind, Option.bind_assoc, Option.bind_eq_some_iff] at h
    obtain ⟨n, -, request, hrequest, h⟩ := h
    obtain rfl := Option.some.inj hrequest
    rw [if_neg (by exact hsuccess)] at h
    split at h
    · cases h
    · obtain rfl := Option.some.inj h
      refine Or.inr ?_
      simp only [ProxyConn.setServer, newRequest, hidle.offset]
      omega
  · have hneed : needmore < 0 := by decide
    simp only [if_neg hend, Option.bind_eq_bind, Option.bind_some, if_pos hneed] at h
    obtain rfl := Option.some.inj h
    refine Or.inl ?_
    simp [ProxyConn.setServer, Server.isReady]

lemma serverLoop_cut (hx : EndsSearch header) {held post : List UInt8} (hidle : Idle r.conn.server held)
    (hheader : header = held ++ post) (hheld : held ≠ []) (hpost : post ≠ []) (hle : held.length ≤ recvlen)
    (hret : r.ret ≠ -1) (h : serverLoop recvlen (fuel + 1) r = some r') :
    r'.dispatched = r.dispatched ∧ Lost r'.conn.server := by
  rw [serverLoop_idle hidle hheld hret, Option.bind_eq_bind, Option.bind_eq_some_iff] at h
  obtain ⟨conn, hparse, h⟩ := h
  have hlost := parseHeader_part hx hidle hheader hpost hle hparse
  split at h
  · rename_i hready
    have hoffset : conn.server.offset < 0 := by
      rcases hlost with hno | hoffset
      · rw [hready] at hno
        cases hno
      · exact hoffset
    cases fuel with
    | zero => cases h
    | succ fuel =>
      rw [serverLoop, if_neg (by simp only; omega)] at h
      obtain rfl := Option.some.inj h
      exact ⟨rfl, hlost⟩
  · obtain rfl := Option.some.inj h
    exact ⟨rfl, hlost⟩

lemma serverLoop_header (fuel : Nat) (hx : IsResponseHeader header) (hfits : header.length < maxReqSize)
    (hidle : Idle r.conn.server (header ++ rest)) (hle : header.length ≤ recvlen) (hret : r.ret ≠ -1) :
    (serverLoop recvlen (fuel + 1) r = none ∧ ¬∃ n, StatesBody header n) ∨
      ∃ (n : Nat) (conn' : ProxyConn), StatesBody header n ∧
        serverLoop recvlen (fuel + 1) r = serverLoop recvlen fuel { r with conn := conn' } ∧
        Busy conn'.server header n [] rest ∧ conn'.core = r.conn.core := by
  have hne : header ++ rest ≠ [] := by
    have hpos := hx.endsSearch.length_pos
    exact List.append_ne_nil_of_left_ne_nil (List.ne_nil_of_length_pos hpos) rest
  rw [serverLoop_idle hidle hne hret]
  rcases parseHeader_whole hx hfits hidle hle with ⟨hnone, hno⟩ | ⟨n, conn', hn, hparse, hbusy, hcore⟩
  · exact Or.inl ⟨by rw [hnone]; rfl, hno⟩
  · refine Or.inr ⟨n, conn', hn, ?_, hbusy, hcore⟩
    simp only [hparse, Option.bind_eq_bind, Option.bind_some, if_pos hbusy.isReady]

/-! ## The body -/

/-- The bytes of the body are stored, and the rest is moved to the front. -/
lemma drainBody_busy {conn : ProxyConn} {part : List UInt8} (h : Busy conn.server header n got (part ++ rest))
    (hpart : part ≠ []) (hlen : rest = [] ∧ got.length + part.length ≤ n ∨ got.length + part.length = n) :
    ∃ conn', drainBody conn = some conn' ∧ Busy conn'.server header n (got ++ part) rest ∧
      conn'.core = conn.core := by
  obtain ⟨request, hrequest, hstatus, hn⟩ := h.request
  obtain ⟨tail, hbuf⟩ := h.buf
  have hpos := List.length_pos_of_ne_nil hpart
  have hle : got.length + part.length ≤ n := by
    rcases hlen with hlen | hlen
    · exact hlen.2
    · exact hlen.le
  have hsome : ¬conn.server.toSendLength ≤ 0 := by
    rw [h.toSend]
    omega
  have htoSend : (if conn.server.toSendLength > conn.server.offset then conn.server.offset
      else conn.server.toSendLength) = (part.length : Int) := by
    rw [h.toSend, h.offset, List.length_append]
    rcases hlen with ⟨rfl, hlen⟩ | hlen
    · split
      · simp
      · rename_i hno
        rw [List.length_nil] at hno
        omega
    · rw [if_neg (by omega)]
      omega
  have hold : (request.contentLength - conn.server.toSendLength).toNat = got.length := by
    rw [hn, h.toSend]
    omega
  have hfetch : fetch conn.server.buf 0 part.length = part := by
    rw [hbuf, fetch_eq_take_drop _ (by simp), List.drop_zero, List.append_assoc, List.take_left]
  have hput : put got got.length part = got ++ part := by
    rw [put_eq _ le_rfl, List.take_length, List.drop_eq_nil_of_le (by omega), List.append_nil]
  obtain ⟨tail', hmove⟩ := moveToFront_holds (part ++ rest) tail (n := part.length) (by simp)
  rw [List.drop_left] at hmove
  have hdrain : drainBody conn = some (conn.setServer fun s => { s with
      responseBody := some (got ++ part)
      toSendLength := s.toSendLength - part.length
      offset := s.offset - part.length
      buf := moveToFront s.buf part.length (s.offset - part.length) }) := by
    unfold drainBody
    simp only [if_neg hsome, htoSend, hrequest, h.body, hold, Int.toNat_natCast, hfetch, hput,
      Option.bind_eq_bind, Option.bind_some]
    rfl
  refine ⟨_, hdrain, ⟨⟨request, hrequest, hstatus, hn⟩, ?_, rfl, h.response, ?_, tail', ?_⟩, rfl⟩
  · simp only [ProxyConn.setServer, h.toSend, List.length_append]
    omega
  · simp only [ProxyConn.setServer, h.offset, List.length_append]
    omega
  · simp only [ProxyConn.setServer]
    rw [h.offset, hbuf, hmove]

/-- A part of the body is stored, and the call ends. -/
lemma serverLoop_part {part : List UInt8} (hbusy : Busy r.conn.server header n got part) (hpart : part ≠ [])
    (hlt : got.length + part.length < n) (hret : r.ret ≠ -1) :
    ∃ conn', serverLoop recvlen (fuel + 1) r = some { r with conn := conn' } ∧
      Busy conn'.server header n (got ++ part) [] ∧ conn'.core = r.conn.core := by
  have hpos := List.length_pos_of_ne_nil hpart
  rw [← List.append_nil part] at hbusy
  obtain ⟨conn', hdrain, hbusy', hcore⟩ := drainBody_busy hbusy hpart (Or.inl ⟨rfl, hlt.le⟩)
  refine ⟨conn', ?_, hbusy', hcore⟩
  obtain ⟨request, hrequest, -, -⟩ := hbusy'.request
  have hmore : conn'.server.toSendLength ≠ 0 := by
    rw [hbusy'.toSend, List.length_append]
    omega
  have hdispatch : dispatch { r with conn := conn' } = some { r with conn := conn' } := by
    simp only [dispatch, hrequest, hmore, ne_eq, not_false_eq_true, or_true, if_true]
    rfl
  have hoffset : conn'.server.offset ≤ 0 := le_of_eq hbusy'.offset
  rw [serverLoop_ready (by rw [hbusy.offset]; simp; omega) hbusy.isReady hret, hdrain, Option.bind_some,
    afterDrain, hdispatch]
  simp only [Option.bind_eq_bind, Option.bind_some, if_pos hoffset]
  rfl

lemma dispatch_busy (hbusy : Busy r.conn.server header n got rest) (hlen : got.length = n) :
    dispatch r = match r.conn.state.handler with
      | none => some { r with
          ret := -1, conn := r.conn.setServer fun s => { s with responseBody := none, request := none } }
      | some handler => (handler.run r.config r.conn got).map fun x => { r with
          ret := sentLength x.2.2
          config := x.1
          conn := x.2.1.setServer fun s => { s with responseBody := none, request := none }
          sent := r.sent ++ x.2.2
          dispatched := r.dispatched ++ [⟨handler, header, got⟩] } := by
  obtain ⟨request, hrequest, hstatus, hn⟩ := hbusy.request
  have hcomplete : ¬(request.status = needmore ∨ r.conn.server.toSendLength ≠ 0) := by
    rw [hstatus, hbusy.toSend]
    rintro (h | h)
    · exact absurd h (by decide)
    · omega
  have hbody : fetch got 0 request.contentLength.toNat = got := by
    rw [hn, Int.toNat_natCast, ← hlen, fetch_eq_take_drop _ (by simp), List.drop_zero, List.take_length]
  unfold dispatch
  simp only [hrequest, if_neg hcomplete, hbusy.body, Option.bind_eq_bind, Option.bind_some, hbody, hbusy.response]
  cases r.conn.state.handler with
  | none => rfl
  | some handler =>
    simp only
    cases handler.run r.config r.conn got <;> rfl

lemma Handler.run_stored (handler : Handler) (config : Config) {conn : ProxyConn}
    (hresponse : cstr conn.server.response = header) (hheader : IsString header) (body : List UInt8) :
    handler.run config conn body = (handler.run config (conn.withResponse header) body).map fun r =>
      (r.1, r.2.1.withTransport conn.server.transport, r.2.2) := by
  have hcstr : cstr conn.server.transport.response = cstr (conn.withResponse header).server.response := by
    change cstr conn.server.response = cstr header
    rw [hresponse, cstr_eq_self _ hheader]
  exact handler.run_withTransport config (conn.withResponse header) hcstr body

lemma run_of_respond {config : Config} {conn : ProxyConn} {body : List UInt8} {run : ServerRun}
    (hresponse : cstr conn.server.response = header) (hheader : IsString header)
    (h : respond config conn header body = some run) :
    ∃ handler conn', conn.state.handler = some handler ∧ run.dispatched = [⟨handler, header, body⟩] ∧
      handler.run config conn body = some (run.config, conn', run.sent) ∧ run.conn = conn'.core ∧
      conn'.server.transport = conn.server.transport := by
  obtain ⟨handler, hhandler, hdispatched, conn', hrun, hconn⟩ := respond_dispatched h
  refine ⟨handler, conn'.withTransport conn.server.transport, hhandler, hdispatched, ?_, hconn, rfl⟩
  rw [handler.run_stored config hresponse hheader body, hrun]
  rfl

/-- The rest of the body is stored, the response is handled, and the loop goes on with an idle
connection. -/
lemma serverLoop_end (recvlen fuel : Nat) {part : List UInt8}
    (hbusy : Busy r.conn.server header n got (part ++ rest)) (hpart : part ≠ []) (hheader : IsString header)
    (hlen : got.length + part.length = n) (hret : r.ret ≠ -1) {run : ServerRun}
    (hrespond : respond r.config r.conn header (got ++ part) = some run) :
    ∃ r₁, serverLoop recvlen (fuel + 1) r = serverLoop recvlen (fuel + 1) r₁ ∧ Idle r₁.conn.server rest ∧
      r₁.config = run.config ∧ r₁.conn.core = run.conn ∧ 0 ≤ r₁.ret ∧
      r₁.dispatched = r.dispatched ++ run.dispatched := by
  obtain ⟨conn₂, hdrain, hbusy₂, hcore₂⟩ := drainBody_busy hbusy hpart (Or.inr hlen)
  have hrespond₂ : respond r.config conn₂ header (got ++ part) = some run := by
    rw [respond_congr hcore₂, hrespond]
  obtain ⟨handler, conn', hstate, hdispatched, hrun, hconn, htransport⟩ :=
    run_of_respond hbusy₂.response hheader hrespond₂
  have hdispatch := dispatch_busy (r := { r with conn := conn₂ }) hbusy₂ (by simpa using hlen)
  simp only [hstate, hrun, Option.map_some, ← hdispatched] at hdispatch
  have hoffset : 0 < r.conn.server.offset := by
    have hpos := List.length_pos_of_ne_nil hpart
    rw [hbusy.offset, List.length_append]
    omega
  obtain ⟨r₁, hr₁⟩ : ∃ r₁ : ServerResult, r₁ = { r with
      ret := sentLength run.sent, config := run.config, sent := r.sent ++ run.sent
      conn := conn'.setServer fun s => { s with responseBody := none, request := none }
      dispatched := r.dispatched ++ run.dispatched } := ⟨_, rfl⟩
  have hidle : Idle r₁.conn.server rest := by
    rw [hr₁]
    refine ⟨rfl, ?_, ?_, ?_⟩
    · change conn'.server.transport.toSendLength = 0
      rw [htransport]
      change conn₂.server.toSendLength = 0
      rw [hbusy₂.toSend, List.length_append]
      omega
    · change conn'.server.transport.offset = rest.length
      rw [htransport]
      exact hbusy₂.offset
    · change ∃ tail, conn'.server.transport.buf = rest ++ tail
      rw [htransport]
      exact hbusy₂.buf
  have hret₁ : 0 ≤ r₁.ret := by
    rw [hr₁]
    exact Int.natCast_nonneg _
  refine ⟨r₁, ?_, hidle, by rw [hr₁], by rw [hr₁, hconn]; rfl, hret₁, by rw [hr₁]⟩
  rw [serverLoop_ready hoffset hbusy.isReady hret, hdrain, Option.bind_some, afterDrain, hdispatch, ← hr₁,
    Option.bind_eq_bind, Option.bind_some]
  by_cases hrest : rest = []
  · have hzero : r₁.conn.server.offset = 0 := by rw [hidle.offset, hrest]; rfl
    rw [if_pos hzero.le, serverLoop_empty hzero]
    rfl
  · have hpos := List.length_pos_of_ne_nil hrest
    rw [if_neg (by rw [hidle.offset]; omega), serverLoop_idle hidle hrest (by omega)]

lemma run_of_respond_none {config : Config} {conn : ProxyConn} {body : List UInt8} {handler : Handler}
    (hresponse : cstr conn.server.response = header) (hheader : IsString header)
    (hhandler : conn.state.handler = some handler) (h : respond config conn header body = none) :
    handler.run config conn body = none := by
  rw [handler.run_stored config hresponse hheader body, Option.map_eq_none_iff]
  cases hrun : handler.run config (conn.withResponse header) body with
  | none => rfl
  | some run => simp [respond, hhandler, hrun] at h

lemma serverLoop_end_none {part : List UInt8} (hbusy : Busy r.conn.server header n got (part ++ rest))
    (hpart : part ≠ []) (hheader : IsString header) (hlen : got.length + part.length = n) (hret : r.ret ≠ -1)
    (hrespond : respond r.config r.conn header (got ++ part) = none)
    (h : serverLoop recvlen (fuel + 1) r = some r') : r'.ret = -1 := by
  obtain ⟨conn₂, hdrain, hbusy₂, hcore₂⟩ := drainBody_busy hbusy hpart (Or.inr hlen)
  have hrespond₂ : respond r.config conn₂ header (got ++ part) = none := by
    rw [respond_congr hcore₂, hrespond]
  have hdispatch := dispatch_busy (r := { r with conn := conn₂ }) hbusy₂ (by simpa using hlen)
  have hoffset : 0 < r.conn.server.offset := by
    have hpos := List.length_pos_of_ne_nil hpart
    rw [hbusy.offset, List.length_append]
    omega
  rw [serverLoop_ready hoffset hbusy.isReady hret, hdrain, Option.bind_some, afterDrain, hdispatch] at h
  cases hhandler : conn₂.state.handler with
  | none =>
    simp only [hhandler, Option.bind_eq_bind, Option.bind_some] at h
    split at h
    · obtain rfl := Option.some.inj h
      rfl
    · obtain ⟨conn₃, -, h⟩ := Option.bind_eq_some_iff.mp h
      split at h
      · cases fuel with
        | zero => cases h
        | succ fuel =>
          rw [serverLoop, if_neg (by simp)] at h
          obtain rfl := Option.some.inj h
          rfl
      · obtain rfl := Option.some.inj h
        rfl
  | some handler =>
    simp [hhandler, run_of_respond_none hbusy₂.response hheader hhandler hrespond₂] at h

/-! ## Wrong lengths -/

/-- A response with a body of `n` bytes is being received. -/
def Pending (s : Server) (n : Int) : Prop :=
  0 ≤ s.toSendLength ∧ ∃ request, s.request = some request ∧ request.status ≠ needmore ∧ request.contentLength = n

lemma Busy.pending {s : Server} {held : List UInt8} (h : Busy s header n got held) (hlen : got.length ≤ n) :
    Pending s n := by
  obtain ⟨request, hrequest, hstatus, hn⟩ := h.request
  refine ⟨?_, request, hrequest, by rw [hstatus]; decide, hn⟩
  rw [h.toSend]
  omega

/-- What a round of the loop can do. -/
lemma serverLoop_cases (h : serverLoop recvlen (fuel + 1) r = some r') :
    r' = r ∨ ∃ conn r₁, drainBody r.conn = some conn ∧ dispatch { r with conn := conn } = some r₁ ∧
      (r' = r₁ ∨ 0 < r₁.conn.server.offset ∧ ∃ conn', parseHeader r₁.conn recvlen = some conn' ∧
        (r' = { r₁ with conn := conn' } ∨ serverLoop recvlen fuel { r₁ with conn := conn' } = some r')) := by
  rw [serverLoop] at h
  split at h
  · simp only [Option.bind_eq_bind, Option.bind_eq_some_iff] at h
    obtain ⟨conn, hdrain, r₁, hdispatch, h⟩ := h
    refine Or.inr ⟨conn, r₁, hdrain, hdispatch, ?_⟩
    split at h
    · exact Or.inl (Option.some.inj h).symm
    · rename_i hoffset
      obtain ⟨conn', hparse, h⟩ := Option.bind_eq_some_iff.mp h
      refine Or.inr ⟨not_le.mp hoffset, conn', hparse, ?_⟩
      split at h
      · exact Or.inr h
      · exact Or.inl (Option.some.inj h).symm
  · exact Or.inl (Option.some.inj h).symm

/-- Nothing is handed over unless a response is complete. A complete one goes to the handler of the state; without
a handler the connection is closed. -/
lemma dispatch_steps (h : dispatch r = some r') :
    r' = r ∧ (∀ request, r.conn.server.request = some request → request.status ≠ needmore →
        r.conn.server.toSendLength ≠ 0) ∨
      ∃ request body, r.conn.server.request = some request ∧ request.status ≠ needmore ∧
        r.conn.server.toSendLength = 0 ∧ body.length = request.contentLength.toNat ∧
        (r.conn.state.handler = none ∧
            r' = { r with
              ret := -1
              conn := r.conn.setServer fun s => { s with responseBody := none, request := none } } ∨
          ∃ handler config conn sent, r.conn.state.handler = some handler ∧
            handler.run r.config r.conn body = some (config, conn, sent) ∧
            r' = { r with
              ret := sentLength sent
              config := config
              conn := conn.setServer fun s => { s with responseBody := none, request := none }
              sent := r.sent ++ sent
              dispatched := r.dispatched ++ [⟨handler, cstr r.conn.server.response, body⟩] }) := by
  unfold dispatch at h
  cases hrequest : r.conn.server.request with
  | none =>
    simp only [hrequest] at h
    exact Or.inl ⟨(Option.some.inj h).symm, by simp⟩
  | some request =>
    simp only [hrequest] at h
    split at h
    · rename_i hwait
      refine Or.inl ⟨(Option.some.inj h).symm, fun request' heq hstatus => ?_⟩
      obtain rfl := Option.some.inj heq
      exact hwait.resolve_left hstatus
    · rename_i hcomplete
      rw [not_or, not_ne_iff] at hcomplete
      obtain ⟨body, -, h⟩ := Option.bind_eq_some_iff.mp h
      refine Or.inr ⟨request, _, rfl, hcomplete.1, hcomplete.2, length_fetch body 0 _, ?_⟩
      split at h
      · rename_i hnone
        exact Or.inl ⟨hnone, (Option.some.inj h).symm⟩
      · rename_i handler hhandler
        obtain ⟨⟨config, conn, sent⟩, hrun, h⟩ := Option.bind_eq_some_iff.mp h
        exact Or.inr ⟨handler, config, conn, sent, hhandler, hrun, (Option.some.inj h).symm⟩

/-- What handing over a response can do: nothing, close the connection, or run a handler. -/
lemma dispatch_cases (h : dispatch r = some r') :
    r' = r ∧ (∀ request, r.conn.server.request = some request → request.status ≠ needmore →
        r.conn.server.toSendLength ≠ 0) ∨
      ∃ request, r.conn.server.request = some request ∧ request.status ≠ needmore ∧
        (r'.ret = -1 ∧ r'.config = r.config ∧ r'.conn.core = r.conn.core ∧ r'.sent = r.sent ∧
            r'.dispatched = r.dispatched ∨
          ∃ header body run, header = cstr r.conn.server.response ∧ body.length = request.contentLength.toNat ∧
            respond r.config r.conn header body = some run ∧ r'.config = run.config ∧ r'.conn.core = run.conn ∧
            r'.sent = r.sent ++ run.sent ∧ r'.dispatched = r.dispatched ++ run.dispatched) := by
  rcases dispatch_steps h with hwait | ⟨request, body, hrequest, hstatus, -, hlength, hrun⟩
  · exact Or.inl hwait
  · refine Or.inr ⟨request, hrequest, hstatus, ?_⟩
    rcases hrun with ⟨-, rfl⟩ | ⟨handler, config, conn, sent, hhandler, hrun, rfl⟩
    · exact Or.inl ⟨rfl, rfl, rfl, rfl, rfl⟩
    · refine Or.inr ⟨cstr r.conn.server.response, body, ⟨config, conn.core, sent, _⟩, rfl, hlength, ?_, rfl, rfl, rfl,
        rfl⟩
      have hwith := handler.run_withTransport r.config r.conn
        (t := ⟨none, 0, [], 0, none, cstr r.conn.server.response⟩) (cstr_eq_self _ (isString_cstr _)) body
      have hwith' : handler.run r.config (r.conn.withResponse (cstr r.conn.server.response)) body =
          some (config, conn.withResponse (cstr r.conn.server.response), sent) := by
        rw [ProxyConn.withResponse, hwith, hrun]
        rfl
      simp only [respond, hhandler, Option.bind_eq_bind, Option.bind_some, hwith']
      rfl

/-- Between two points of a run the handlers were run on responses, and nothing else was sent. -/
def Handles (r r' : ServerResult) : Prop :=
  ∃ run, respondAll r.config r.conn (handled run.dispatched) = some run ∧ r'.config = run.config ∧
    r'.conn.core = run.conn ∧ r'.sent = r.sent ++ run.sent ∧ r'.dispatched = r.dispatched ++ run.dispatched

lemma Handles.of_same (hconfig : r'.config = r.config) (hcore : r'.conn.core = r.conn.core)
    (hsent : r'.sent = r.sent) (hdispatched : r'.dispatched = r.dispatched) : Handles r r' :=
  ⟨⟨r.config, r.conn.core, [], []⟩, rfl, hconfig, hcore, by simp [hsent], by simp [hdispatched]⟩

lemma Handles.trans {r₁ r₂ r₃ : ServerResult} (h : Handles r₁ r₂) (h' : Handles r₂ r₃) : Handles r₁ r₃ := by
  obtain ⟨run, hrun, hconfig, hcore, hsent, hdispatched⟩ := h
  obtain ⟨run', hrun', hconfig', hcore', hsent', hdispatched'⟩ := h'
  rw [← respondAll_core, hconfig, hcore] at hrun'
  refine ⟨{ run' with sent := run.sent ++ run'.sent, dispatched := run.dispatched ++ run'.dispatched }, ?_, hconfig',
    hcore', by simp [hsent', hsent], by simp [hdispatched', hdispatched]⟩
  have happend : handled (run.dispatched ++ run'.dispatched) = handled run.dispatched ++ handled run'.dispatched := by
    simp [handled]
  rw [happend, respondAll_append, hrun, Option.bind_some, hrun']
  rfl

lemma dispatch_handles (h : dispatch r = some r') : Handles r r' := by
  rcases dispatch_cases h with ⟨rfl, -⟩ | ⟨request, -, -, ⟨-, hconfig, hcore, hsent, hdispatched⟩ |
    ⟨header, body, run, -, -, hrespond, hconfig, hcore, hsent, hdispatched⟩⟩
  · exact Handles.of_same rfl rfl rfl rfl
  · exact Handles.of_same hconfig hcore hsent hdispatched
  · refine ⟨run, ?_, hconfig, hcore, hsent, hdispatched⟩
    obtain ⟨handler, -, hd, conn', -, hconn⟩ := respond_dispatched hrespond
    have hpair : handled run.dispatched = [(header, body)] := by rw [hd]; rfl
    rw [hpair, respondAll, hrespond]
    simp only [respondAll, Option.bind_eq_bind, Option.bind_some, Option.pure_def, List.append_nil, hconn]
    rw [← hconn]
    cases run
    simp_all
    rfl

lemma parseHeader_core {conn conn' : ProxyConn} (h : parseHeader conn recvlen = some conn') :
    conn'.core = conn.core := by
  unfold parseHeader at h
  obtain ⟨request, -, h⟩ := Option.bind_eq_some_iff.mp h
  split at h
  · obtain rfl := Option.some.inj h
    rfl
  · split at h
    · cases h
    · obtain rfl := Option.some.inj h
      rfl

lemma drainBody_core {conn conn' : ProxyConn} (h : drainBody conn = some conn') : conn'.core = conn.core := by
  unfold drainBody at h
  dsimp only at h
  split at h
  · obtain rfl := Option.some.inj h
    rfl
  · simp only [Option.bind_eq_bind, Option.bind_eq_some_iff] at h
    obtain ⟨request, -, body, -, h⟩ := h
    obtain rfl := Option.some.inj h
    rfl

/-- Whatever is received, the effects of the loop are those of the handlers it calls. -/
theorem serverLoop_handles (h : serverLoop recvlen fuel r = some r') : Handles r r' := by
  induction fuel generalizing r with
  | zero => cases h
  | succ fuel ih =>
    rcases serverLoop_cases h with rfl | ⟨conn, r₁, hdrain, hdispatch, h⟩
    · exact Handles.of_same rfl rfl rfl rfl
    · have hdrained : Handles r { r with conn := conn } := Handles.of_same rfl (drainBody_core hdrain) rfl rfl
      have hone := hdrained.trans (dispatch_handles hdispatch)
      rcases h with rfl | ⟨-, conn', hparse, h⟩
      · exact hone
      · have hparsed : Handles r₁ { r₁ with conn := conn' } :=
          Handles.of_same rfl (parseHeader_core hparse) rfl rfl
        rcases h with rfl | h
        · exact hone.trans hparsed
        · exact (hone.trans hparsed).trans (ih h)

/-- The effects of a call are those of the handlers it calls. -/
lemma handlerServer_handles {config : Config} {conn : ProxyConn} {data : List UInt8} {r : ServerResult}
    (h : handlerServer config conn data = some r) : Handles ⟨0, config, conn, [], []⟩ r := by
  obtain ⟨buf, -, hloop⟩ := Option.bind_eq_some_iff.mp h
  have hstored : Handles ⟨0, config, conn, [], []⟩ ⟨0, config, conn.setServer fun s =>
      { s with buf := buf, offset := conn.server.offset + data.length }, [], []⟩ := Handles.of_same rfl rfl rfl rfl
  exact hstored.trans (serverLoop_handles hloop)

lemma serverLoop_closed (hret : r.ret = -1) (h : serverLoop recvlen fuel r = some r') : r' = r := by
  cases fuel with
  | zero => cases h
  | succ fuel =>
    rw [serverLoop, if_neg (by simp [hret])] at h
    exact (Option.some.inj h).symm

/-- After storing, either the buffer is empty or the body is complete. -/
lemma drainBody_pending {m : Int} {conn conn' : ProxyConn} (hpending : Pending conn.server m)
    (h : drainBody conn = some conn') :
    Pending conn'.server m ∧ (conn'.server.offset ≤ 0 ∨ conn'.server.toSendLength = 0) := by
  obtain ⟨hnonneg, request, hrequest, hstatus, hm⟩ := hpending
  unfold drainBody at h
  dsimp only at h
  split at h
  · rename_i hzero
    obtain rfl := Option.some.inj h
    exact ⟨⟨hnonneg, request, hrequest, hstatus, hm⟩, Or.inr (le_antisymm hzero hnonneg)⟩
  · simp only [Option.bind_eq_bind, Option.bind_eq_some_iff] at h
    obtain ⟨request', -, body, -, h⟩ := h
    obtain rfl := Option.some.inj h
    simp only [ProxyConn.setServer]
    refine ⟨⟨?_, request, hrequest, hstatus, hm⟩, ?_⟩
    · dsimp only
      split <;> omega
    · split <;> omega

/-- The body that is handed over next has as many bytes as the header section said. -/
lemma serverLoop_pending {m : Int} (hpending : Pending r.conn.server m)
    (h : serverLoop recvlen fuel r = some r') :
    r'.ret = -1 ∨ r'.dispatched = r.dispatched ∧ Pending r'.conn.server m ∨
      ∃ d ds, r'.dispatched = r.dispatched ++ d :: ds ∧ d.body.length = m.toNat := by
  cases fuel with
  | zero => cases h
  | succ fuel =>
    rcases serverLoop_cases h with rfl | ⟨conn, r₁, hdrain, hdispatch, h⟩
    · exact Or.inr (Or.inl ⟨rfl, hpending⟩)
    · obtain ⟨hpending', hrest⟩ := drainBody_pending hpending hdrain
      have hwaiting := hpending'
      obtain ⟨-, request, hrequest, hstatus, hm⟩ := hpending'
      rcases dispatch_cases hdispatch with ⟨rfl, hwait⟩ | ⟨request', hrequest', -, ⟨hret, -⟩ |
        ⟨header, body, run, -, hlen, hrespond, -, -, -, heq⟩⟩
      · rcases hrest with hoffset | hdone
        · rcases h with rfl | ⟨hmore, -⟩
          · exact Or.inr (Or.inl ⟨rfl, hwaiting⟩)
          · simp only at hmore
            omega
        · exact absurd hdone (hwait request hrequest hstatus)
      · -- a response without a handler closes the connection
        left
        rcases h with rfl | ⟨-, conn', -, rfl | h⟩
        · exact hret
        · exact hret
        · rw [serverLoop_closed (r := { r₁ with conn := conn' }) hret h]
          exact hret
      · right
        right
        obtain rfl : request = request' := Option.some.inj (hrequest.symm.trans hrequest')
        obtain ⟨handler, -, hd, -⟩ := respond_dispatched hrespond
        have hprefix : r₁.dispatched <+: r'.dispatched := by
          rcases h with rfl | ⟨-, conn', -, rfl | h⟩
          · exact List.prefix_rfl
          · exact List.prefix_rfl
          · obtain ⟨run', -, -, -, -, hmore⟩ := serverLoop_handles (r := { r₁ with conn := conn' }) h
            exact ⟨run'.dispatched, hmore.symm⟩
        obtain ⟨ds, hds⟩ := hprefix
        exact ⟨⟨handler, header, body⟩, ds, by rw [← hds, heq, hd]; simp, by rw [← hm]; exact hlen⟩

end Loop

end VideoCDN.Proxy
