import VideoCDN.Http.Fields
import VideoCDN.Proxy.LoopRounds

/-!
# The offsets of the buffers

Both parsers are called with the number of bytes that the last `recv` returned. In `handler_browser` the
buffer holds at least these. In `handler_server` it holds fewer once bytes were taken out of it, and then
old bytes behind those it holds can end a header section; the offset gets negative. It takes a `recv` that
returns the end of a body and, behind it, only a part of the next header section.
-/

namespace VideoCDN.Proxy

open CString Buffer Http

/-- The numbers of bytes held are between 0 and the size of the buffers. -/
structure InBuffers (conn : ProxyConn) : Prop where
  browser_nonneg : 0 ≤ conn.browser.offset
  browser_le : conn.browser.offset ≤ maxReqSize
  server_nonneg : 0 ≤ conn.server.offset
  server_le : conn.server.offset ≤ maxReqSize

/-- What a parser takes out of a buffer was held there, in every call of it. -/
def ConsumesHeld (w : ProxyState) : ProxyEvent → Prop
  | .browser i data => ∀ conn buf request, w.conns[i]? = some conn →
    receive conn.browser.buf conn.browser.offset data = some buf → parse buf data.length = some request →
    request.position ≤ conn.browser.offset + data.length
  | .server i data => ∀ conn buf r request, w.conns[i]? = some conn →
    receive conn.server.buf conn.server.offset data = some buf →
    Passes data.length (startCall w.config conn buf (conn.server.offset + data.length)) r →
    0 < r.conn.server.offset → parseReponse r.conn.server.buf data.length = some request →
    request.status = success → request.position ≤ r.conn.server.offset
  | _ => True

/-- A length that `parse_reponse` can read in a buffer that starts with the header section. -/
def MayState (header : List UInt8) (n : Nat) : Prop := ∃ behind, contentLength (header ++ behind) = some (n : Int)

/-- The bytes end where a body ends: they are the `m` outstanding bytes of a body and whole responses. -/
inductive EndsBody (m : Nat) : List UInt8 → Prop
  | outstanding {body : List UInt8} (h : body.length = m) : EndsBody m body
  | response {first header body : List UInt8} (h : EndsBody m first) (hend : EndsSearch header)
      (hlength : MayState header body.length) : EndsBody m (first ++ (header ++ body))

/-- When a `recv` returns bytes behind the end of a body, a whole header section comes first in them. Nothing is
asked while an incomplete header section is waited for. -/
def HeadersWhole (s : Server) (data : List UInt8) : Prop :=
  s.isReady = true → ∀ first rest, data = first ++ rest → first ≠ [] → rest ≠ [] →
    EndsBody s.toSendLength.toNat first → ∃ header, EndsSearch header ∧ header <+: rest

/-- What arrives from a server ends in no header section that began behind a body. -/
def CleanEvent (w : ProxyState) : ProxyEvent → Prop
  | .server i data => ∀ conn, w.conns[i]? = some conn → HeadersWhole conn.server data
  | _ => True

/-- The states of the runs in which all that arrives from the servers is such. -/
inductive CleanReachable (config : Config) : ProxyState → Prop
  | start : CleanReachable config (ProxyState.start config)
  | step {w w' : ProxyState} (e : ProxyEvent) (h : CleanReachable config w) (hclean : CleanEvent w e)
      (hstep : proxyStep w e = some w') : CleanReachable config w'

lemma CleanReachable.reachable {config : Config} {w : ProxyState} (h : CleanReachable config w) :
    Reachable config w := by
  induction h with
  | start => exact .start
  | step e _ _ hstep ih => exact .step e ih hstep

/-! ## Positions -/

/-- A search that ends in some bytes gets no further in more of them. -/
lemma scanHeader_take_le {buf : List UInt8} (n : Nat) {m : Nat}
    (hm : (scanHeader .start (buf.take m) 0).1 = .crlfcrlf) : (scanHeader .start (buf.take n) 0).2 ≤ m := by
  have hle := scanHeader_le .start (buf.take n) 0
  rw [Nat.zero_add, List.length_take] at hle
  rcases le_total m n with hmn | hnm
  · have htake : (buf.take n).take m = buf.take m := by rw [List.take_take, Nat.min_eq_left hmn]
    obtain ⟨j, hj⟩ : ∃ j, scanHeader .start (buf.take m) 0 = (.crlfcrlf, j) := ⟨_, Prod.ext hm rfl⟩
    obtain ⟨hjle, hsame⟩ := scanHeader_append_of_end hj ((buf.take n).drop m)
    rw [← List.take_append_drop m (buf.take n), htake, hsame]
    rw [Nat.zero_add, List.length_take] at hjle
    exact hjle.trans (Nat.min_le_left _ _)
  · omega

lemma parse_position_le {buf : List UInt8} {size : Nat} {request : Request} (h : parse buf size = some request) :
    request.position ≤ size := by
  have hle := scanHeader_le .start (buf.take size) 0
  rw [Nat.zero_add, List.length_take] at hle
  rw [parse_position h]
  exact hle.trans (Nat.min_le_left _ _)

/-- What a search goes through ends as the search. -/
lemma endsSearch_take {xs : List UInt8} {p : Nat} (h : scanHeader .start xs 0 = (.crlfcrlf, p)) :
    EndsSearch (xs.take p) := by
  have hle := scanHeader_le .start xs 0
  rw [h, Nat.zero_add] at hle
  have hlen : (xs.take p).length = p := List.length_take_of_le hle
  obtain ⟨s, k, hk⟩ : ∃ s k, scanHeader .start (xs.take p) 0 = (s, k) := ⟨_, _, rfl⟩
  have hs : s = .crlfcrlf := by
    by_contra hs
    obtain ⟨hkp, happend⟩ := scanHeader_append_of_ne hk hs (xs.drop p)
    rw [List.take_append_drop, h] at happend
    have := lt_of_scanHeader happend.symm hs
    omega
  subst hs
  obtain ⟨-, happend⟩ := scanHeader_append_of_end hk (xs.drop p)
  rw [List.take_append_drop, h] at happend
  obtain ⟨-, rfl⟩ := Prod.mk.inj happend
  unfold EndsSearch
  rw [hk, hlen]

section Call

variable {config : Config} {conn conn' : ProxyConn} {data : List UInt8} {recvlen m : Nat} {r r₁ : ServerResult}

/-- A header section that ends in the bytes that `parse_reponse` searches ends in the bytes held. -/
def Server.FindsHeldEnd (s : Server) (recvlen : Nat) : Prop :=
  (scanHeader .start (s.buf.take recvlen) 0).1 = .crlfcrlf →
    (scanHeader .start (s.buf.take s.offset.toNat) 0).1 = .crlfcrlf

lemma Server.FindsHeldEnd.position_le {s : Server} {request : Request} (hheld : s.FindsHeldEnd recvlen)
    (hoffset : 0 ≤ s.offset) (h : parseReponse s.buf recvlen = some request) (hstatus : request.status = success) :
    request.position ≤ s.offset := by
  obtain ⟨hposition, hsearch⟩ := parseReponse_scan h
  rcases hsearch with ⟨-, hend⟩ | ⟨hneed, -⟩
  · have hle := scanHeader_take_le recvlen (hheld hend)
    rw [hposition]
    omega
  · rw [hneed] at hstatus
    exact absurd hstatus (by decide)

lemma receive_bounds {buf buf' : List UInt8} {offset : Int} (h : receive buf offset data = some buf') :
    0 ≤ offset ∧ offset + data.length ≤ maxReqSize := by
  unfold receive at h
  split at h
  · cases h
  · rename_i hfits
    rw [not_or, not_or] at hfits
    omega

/-- The server's offset is in its bounds. -/
def OffsetFits (r : ServerResult) : Prop := 0 ≤ r.conn.server.offset ∧ r.conn.server.offset ≤ maxReqSize

lemma turn_fits (hr : OffsetFits r) (h : turn r = some r₁) : OffsetFits r₁ := by
  obtain ⟨hnonneg, hle⟩ := turn_offset h
  exact ⟨hnonneg, hle.trans hr.2⟩

/-- The header section is taken out of the bytes held when its end is among them. -/
lemma parseHeader_fits (hr₁ : OffsetFits r₁) (hheld : r₁.conn.server.FindsHeldEnd recvlen)
    (h : parseHeader r₁.conn recvlen = some conn) : OffsetFits { r₁ with conn := conn } := by
  obtain ⟨request, hparse, ⟨-, hsame⟩ | ⟨hstatus, hless⟩⟩ := parseHeader_offset h
  · unfold OffsetFits
    rw [hsame]
    exact hr₁
  · have hle := hheld.position_le hr₁.1 hparse hstatus
    unfold OffsetFits
    rw [hless]
    have hmax := hr₁.2
    omega

lemma startCall_fits {buf : List UInt8} (hrecv : receive conn.server.buf conn.server.offset data = some buf) :
    OffsetFits (startCall config conn buf (conn.server.offset + data.length)) := by
  obtain ⟨hnonneg, hle⟩ := receive_bounds hrecv
  refine ⟨?_, hle⟩
  change 0 ≤ conn.server.offset + data.length
  omega

/-! ## What a call has read -/

/-- A call has read the front of what `recv` returned, and the rest of it is in the buffer. What was read ends where
the body that is expected is added. -/
structure Reads (m : Nat) (data : List UInt8) (s : Server) : Prop where
  nonneg : 0 ≤ s.toSendLength
  place : ∃ first rest tail, data = first ++ rest ∧ s.buf = rest ++ tail ∧ s.offset = rest.length ∧
    (s.isReady = true → ∀ body : List UInt8, body.length = s.toSendLength.toNat → EndsBody m (first ++ body))

lemma drainBody_reads (hreads : Reads m data conn.server) (h : drainBody conn = some conn') :
    Reads m data conn'.server := by
  obtain ⟨hnonneg, first, rest, tail, rfl, hbuf, hoffset, hends⟩ := hreads
  unfold drainBody at h
  dsimp only at h
  split at h
  · obtain rfl := Option.some.inj h
    exact ⟨hnonneg, first, rest, tail, rfl, hbuf, hoffset, hends⟩
  · simp only [Option.bind_eq_bind, Option.bind_eq_some_iff] at h
    obtain ⟨request, -, body, -, h⟩ := h
    obtain rfl := Option.some.inj h
    obtain ⟨k, hk, hle, hless⟩ : ∃ k : Nat, (if conn.server.toSendLength > conn.server.offset then conn.server.offset
        else conn.server.toSendLength) = k ∧ k ≤ rest.length ∧ (k : Int) ≤ conn.server.toSendLength := by
      split
      · exact ⟨rest.length, hoffset, le_rfl, by omega⟩
      · exact ⟨conn.server.toSendLength.toNat, by omega, by omega, by omega⟩
    obtain ⟨tail', hmove⟩ := moveToFront_holds rest tail hle
    simp only [hk, ProxyConn.setServer, Int.toNat_natCast]
    refine ⟨?_, first ++ rest.take k, rest.drop k, tail', ?_, ?_, ?_, ?_⟩
    · change 0 ≤ conn.server.toSendLength - k
      omega
    · rw [List.append_assoc, List.take_append_drop]
    · change moveToFront conn.server.buf k (conn.server.offset - k) = _
      rw [hbuf, hoffset, hmove]
    · change conn.server.offset - k = _
      rw [List.length_drop]
      omega
    · intro hready body hbody
      change body.length = (conn.server.toSendLength - k).toNat at hbody
      rw [List.append_assoc]
      apply hends hready
      rw [List.length_append, List.length_take_of_le hle]
      omega

lemma turn_reads (hreads : Reads m data r.conn.server) (h : turn r = some r₁) : Reads m data r₁.conn.server := by
  obtain ⟨-, hready, -⟩ := turn_goes h
  obtain ⟨conn, hdrain, hdispatch⟩ := turn_steps h
  obtain ⟨hoffset, -, -⟩ := turn_goes h
  have hrequest := (drainBody_spec hoffset.le hdrain).1
  have hdrained := drainBody_reads hreads hdrain
  rcases dispatch_spec hdispatch with ⟨rfl, -⟩ | ⟨hover, -⟩
  · exact hdrained
  · obtain ⟨hnonneg, first, rest, tail, hdata, hbuf, hrest, hends⟩ := hdrained
    have hready' : conn.server.isReady = true := by
      rw [Server.isReady, hrequest]
      exact hready
    refine ⟨hover.sameToSend ▸ hnonneg, first, rest, tail, hdata, hover.buf.trans hbuf, hover.offset.trans hrest, ?_⟩
    intro _ body hbody
    rw [hover.sameToSend] at hbody
    exact hends hready' body hbody

/-- A header section that is held leaves the buffer, and its length is awaited. -/
lemma parseHeader_reads (hreads : Reads m data conn.server) (hnone : conn.server.request = none)
    (hzero : conn.server.toSendLength = 0) (hheld : conn.server.FindsHeldEnd recvlen)
    (h : parseHeader conn recvlen = some conn') : Reads m data conn'.server := by
  obtain ⟨hnonneg, first, rest, tail, rfl, hbuf, hoffset, hends⟩ := hreads
  have hready : conn.server.isReady = true := by rw [Server.isReady, hnone]
  unfold parseHeader at h
  obtain ⟨request, hparse, h⟩ := Option.bind_eq_some_iff.mp h
  rcases (parseReponse_scan hparse).2 with ⟨hstatus, hend⟩ | ⟨hstatus, -⟩
  · have hnot : ¬request.status < 0 := by
      rw [hstatus]
      decide
    rw [if_neg hnot] at h
    split at h
    · cases h
    · rename_i hlength
      obtain rfl := Option.some.inj h
      have hposition := hheld.position_le (by omega) hparse hstatus
      have hle : request.position ≤ rest.length := by omega
      -- the header section is the front of the bytes held
      have hscan : scanHeader .start (conn.server.buf.take recvlen) 0 = (.crlfcrlf, request.position) :=
        Prod.ext hend (parseReponse_scan hparse).1.symm
      have hsearch := endsSearch_take hscan
      have hshort : request.position ≤ recvlen := by
        have := scanHeader_le .start (conn.server.buf.take recvlen) 0
        rw [hscan, Nat.zero_add, List.length_take] at this
        exact this.trans (Nat.min_le_left _ _)
      rw [List.take_take, Nat.min_eq_left hshort, hbuf, List.take_append_of_le_length hle] at hsearch
      have hcontent := parseReponse_length hparse hstatus
      obtain ⟨tail', hmove⟩ := moveToFront_holds rest tail hle
      refine ⟨?_, first ++ rest.take request.position, rest.drop request.position, tail', ?_, ?_, ?_, ?_⟩
      · change 0 ≤ request.contentLength
        omega
      · rw [List.append_assoc, List.take_append_drop]
      · change moveToFront conn.server.buf request.position (conn.server.offset - request.position) = _
        rw [hbuf, hoffset, hmove]
      · change conn.server.offset - request.position = _
        rw [List.length_drop]
        omega
      · intro _ body hbody
        change body.length = request.contentLength.toNat at hbody
        rw [List.append_assoc]
        refine .response ?_ hsearch ⟨rest.drop request.position ++ tail, ?_⟩
        · have hfirst := hends hready [] (by rw [hzero]; rfl)
          rwa [List.append_nil] at hfirst
        · rw [← List.append_assoc, List.take_append_drop, ← hbuf, hcontent, hbody]
          congr 1
          omega
  · rw [if_pos (by rw [hstatus]; decide)] at h
    obtain rfl := Option.some.inj h
    refine ⟨hnonneg, first, rest, tail, rfl, hbuf, hoffset, fun hwaits => ?_⟩
    simp [ProxyConn.setServer, Server.isReady, hstatus] at hwaits

/-- What is left of the received bytes starts with a whole header section, unless nothing was read of them: then
`parse_reponse` searches just these bytes. -/
lemma Reads.findsHeldEnd {s₀ s : Server} (hreads : Reads s₀.toSendLength.toNat data s) (hwhole : HeadersWhole s₀ data)
    (hready₀ : s₀.isReady = true) (hnone : s.request = none) (hzero : s.toSendLength = 0) (hoffset : 0 < s.offset) :
    s.FindsHeldEnd data.length := by
  obtain ⟨-, first, rest, tail, rfl, hbuf, hrest, hends⟩ := hreads
  have hready : s.isReady = true := by rw [Server.isReady, hnone]
  have hfirst := hends hready [] (by rw [hzero]; rfl)
  rw [List.append_nil] at hfirst
  intro hend
  rw [hrest, Int.toNat_natCast]
  by_cases hempty : first = []
  · subst hempty
    exact hend
  · have hne : rest ≠ [] := by
      rintro rfl
      simp [hrest] at hoffset
    obtain ⟨header, hheader, more, rfl⟩ := hwhole hready₀ first rest rfl hempty hne hfirst
    rw [hbuf, List.take_left, hheader.append]

/-- Between the calls the buffer is empty, unless an incomplete header section is waited for. -/
def Drained (conn : ProxyConn) : Prop := conn.server.isReady = true → conn.server.offset = 0

lemma startCall_reads {buf : List UInt8} (hsettled : Settled conn) (hdrained : Drained conn)
    (hready : conn.server.isReady = true) (hrecv : receive conn.server.buf conn.server.offset data = some buf) :
    Reads conn.server.toSendLength.toNat data
      (startCall config conn buf (conn.server.offset + data.length)).conn.server := by
  have hempty := hdrained hready
  rw [hempty] at hrecv
  unfold receive at hrecv
  split at hrecv
  · cases hrecv
  · obtain rfl := Option.some.inj hrecv
    refine ⟨hsettled.nonneg, [], data, conn.server.buf.drop data.length, rfl, put_zero _ _, ?_, ?_⟩
    · change conn.server.offset + data.length = _
      omega
    · exact fun _ body hbody => .outstanding hbody

/-- In every round of a call the offset is in its bounds, and so is what is parsed behind it. -/
lemma passes_reads {buf : List UInt8} (hsettled : Settled conn) (hdrained : Drained conn)
    (hwhole : HeadersWhole conn.server data) (hrecv : receive conn.server.buf conn.server.offset data = some buf)
    (h : Passes data.length (startCall config conn buf (conn.server.offset + data.length)) r₁) :
    OffsetFits r₁ ∧ (0 < r₁.conn.server.offset → r₁.conn.server.FindsHeldEnd data.length) := by
  obtain ⟨start, hstart⟩ : ∃ start, startCall config conn buf (conn.server.offset + data.length) = start := ⟨_, rfl⟩
  have hready : conn.server.isReady = true := by
    obtain ⟨r₂, hround⟩ := h.turns
    exact (turn_goes hround).2.1
  have hreads : Reads conn.server.toSendLength.toNat data start.conn.server :=
    hstart ▸ startCall_reads hsettled hdrained hready hrecv
  have hsettled₀ : Settled start.conn := by
    rw [← hstart]
    exact ⟨hsettled.nonneg, hsettled.toSend, hsettled.state⟩
  have hret₀ : 0 ≤ start.ret := by
    rw [← hstart]
    exact le_rfl
  have hfits : OffsetFits start := hstart ▸ startCall_fits hrecv
  rw [hstart] at h
  have hfinds : ∀ r₂, Passes data.length start r₂ → Reads conn.server.toSendLength.toNat data r₂.conn.server →
      0 < r₂.conn.server.offset → r₂.conn.server.request = none ∧ r₂.conn.server.toSendLength = 0 ∧
        r₂.conn.server.FindsHeldEnd data.length := by
    intro r₂ hpass hreads₂ hoffset
    obtain ⟨hsettled₂, -, hrequest⟩ := hpass.settled hsettled₀ hret₀
    have hnone := hrequest hoffset
    have hzero := hsettled₂.toSend hnone
    exact ⟨hnone, hzero, hreads₂.findsHeldEnd hwhole hready hnone hzero hoffset⟩
  have hboth : OffsetFits r₁ ∧ Reads conn.server.toSendLength.toNat data r₁.conn.server := by
    apply Passes.induct (P := fun r => OffsetFits r ∧ Reads conn.server.toSendLength.toNat data r.conn.server) _ _
      ⟨hfits, hreads⟩ h
    · exact fun r r₁ hr hround => ⟨turn_fits hr.1 hround, turn_reads hr.2 hround⟩
    · intro r₂ conn₂ hpass hr₂ hoffset hparse
      obtain ⟨hnone, hzero, hheld⟩ := hfinds r₂ hpass hr₂.2 hoffset
      exact ⟨parseHeader_fits hr₂.1 hheld hparse, parseHeader_reads hr₂.2 hnone hzero hheld hparse⟩
  exact ⟨hboth.1, fun hoffset => (hfinds r₁ h hboth.2 hoffset).2.2⟩

lemma handlerServer_fits (hsettled : Settled conn) (hdrained : Drained conn)
    (hwhole : HeadersWhole conn.server data) (h : handlerServer config conn data = some r) : OffsetFits r := by
  apply handlerServer_induct _ _ _ h
  · exact fun r r₁ => turn_fits
  · intro buf r₂ conn₂ hrecv hpass hr₂ hoffset hparse
    exact parseHeader_fits hr₂ ((passes_reads hsettled hdrained hwhole hrecv hpass).2 hoffset) hparse
  · exact fun buf hrecv => startCall_fits hrecv

lemma handlerServer_drained (hsettled : Settled conn) (hdrained : Drained conn) (hwhole : HeadersWhole conn.server data)
    (h : handlerServer config conn data = some r) (hopen : ¬r.ret < 0) : Drained r.conn := by
  intro hready
  obtain ⟨hnonneg, -⟩ := handlerServer_fits hsettled hdrained hwhole h
  obtain ⟨buf, hrecv, hloop⟩ := handlerServer_eq_some h
  rcases serverLoop_ends hloop with hempty | hwaits | hclosed
  · exact le_antisymm hempty hnonneg
  · rw [hready] at hwaits
    cases hwaits
  · omega

/-- The offset of the browser stays in its bounds whatever arrives. -/
lemma handlerBrowser_fits {r : BrowserResult} (h : handlerBrowser config conn data = some r) :
    0 ≤ r.conn.browser.offset ∧ r.conn.browser.offset ≤ maxReqSize := by
  obtain ⟨buf, request, hrecv, hparse, hcases⟩ := handlerBrowser_cases h
  obtain ⟨hnonneg, hle⟩ := receive_bounds hrecv
  have hposition := parse_position_le hparse
  have htaken : 0 ≤ conn.browser.offset + data.length - request.position ∧
      conn.browser.offset + data.length - request.position ≤ (maxReqSize : Int) := by
    omega
  rcases hcases with ⟨-, rfl⟩ | ⟨-, -, rfl⟩ | ⟨-, -, ⟨config', conn', sent⟩, hforward, rfl⟩
  · refine ⟨?_, hle⟩
    change 0 ≤ conn.browser.offset + data.length
    omega
  · exact htaken
  · obtain ⟨hbrowser, -, -, -⟩ := forwardRequest_keeps hforward
    change 0 ≤ conn'.browser.offset ∧ conn'.browser.offset ≤ maxReqSize
    rw [hbrowser]
    exact htaken

end Call

/-! ## Runs -/

/-- What holds of every connection between the calls. -/
structure Tidy (conn : ProxyConn) : Prop where
  inBuffers : InBuffers conn
  settled : Settled conn
  drained : Drained conn

lemma proxyStep_tidy {w w' : ProxyState} {e : ProxyEvent} (hw : ∀ conn ∈ w.conns, Tidy conn)
    (hclean : CleanEvent w e) (h : proxyStep w e = some w') : ∀ conn ∈ w'.conns, Tidy conn := by
  intro c hc
  cases e with
  | accept ip serverFd =>
    obtain rfl := Option.some.inj h
    rcases List.mem_cons.mp hc with rfl | hc
    · exact ⟨⟨le_rfl, Int.natCast_nonneg _, le_rfl, Int.natCast_nonneg _⟩,
        ⟨le_rfl, fun _ => rfl, by simp [proxyConnCreate]⟩, fun _ => rfl⟩
    · exact hw c hc
  | browser i data =>
    obtain ⟨conn, r, hconn, hcall, rfl⟩ := proxyStep_browser h
    rcases mem_afterCall hc with hc | ⟨rfl, -⟩
    · exact hw c hc
    · have hold := hw conn (List.mem_of_getElem? hconn)
      have htransport := (handlerBrowser_frame hcall).2.1
      have hoffset : r.conn.server.offset = conn.server.offset := congrArg Transport.offset htransport
      have hrequest : r.conn.server.request = conn.server.request := congrArg Transport.request htransport
      obtain ⟨hnonneg, hle⟩ := handlerBrowser_fits hcall
      refine ⟨⟨hnonneg, hle, ?_, ?_⟩, Between.settled hold.settled (.call (.refl conn) hcall), ?_⟩
      · rw [hoffset]
        exact hold.inBuffers.server_nonneg
      · rw [hoffset]
        exact hold.inBuffers.server_le
      · unfold Drained Server.isReady
        rw [hoffset, hrequest]
        exact hold.drained
  | server i data =>
    obtain ⟨conn, r, hconn, hcall, rfl⟩ := proxyStep_server h
    rcases mem_afterCall hc with hc | ⟨rfl, hopen⟩
    · exact hw c hc
    · have hold := hw conn (List.mem_of_getElem? hconn)
      have hwhole := hclean conn hconn
      obtain ⟨hnonneg, hle⟩ := handlerServer_fits hold.settled hold.drained hwhole hcall
      refine ⟨⟨?_, ?_, hnonneg, hle⟩, handlerServer_settled hold.settled hcall,
        handlerServer_drained hold.settled hold.drained hwhole hcall hopen⟩
      · rw [(handlerServer_frame hcall).1]
        exact hold.inBuffers.browser_nonneg
      · rw [(handlerServer_frame hcall).1]
        exact hold.inBuffers.browser_le
  | hangup i =>
    obtain rfl := Option.some.inj h
    exact hw c (List.mem_of_mem_eraseIdx hc)

lemma CleanReachable.tidy {config : Config} {w : ProxyState} (h : CleanReachable config w) :
    ∀ conn ∈ w.conns, Tidy conn := by
  induction h with
  | start => exact fun conn hconn => absurd hconn List.not_mem_nil
  | step e _ hclean hstep ih => exact proxyStep_tidy ih hclean hstep

lemma consumesHeld_of_clean {w : ProxyState} {e : ProxyEvent} (hw : ∀ conn ∈ w.conns, Tidy conn)
    (hclean : CleanEvent w e) : ConsumesHeld w e := by
  cases e with
  | accept ip serverFd => trivial
  | hangup i => trivial
  | browser i data =>
    intro conn buf request _ hrecv hparse
    obtain ⟨hnonneg, -⟩ := receive_bounds hrecv
    have hle := parse_position_le hparse
    omega
  | server i data =>
    intro conn buf r request hconn hrecv hpass hoffset hparse hstatus
    have hconn' := hw conn (List.mem_of_getElem? hconn)
    obtain ⟨hfits, hheld⟩ := passes_reads hconn'.settled hconn'.drained (hclean conn hconn) hrecv hpass
    exact (hheld hoffset).position_le hfits.1 hparse hstatus

/-- Where no `recv` returns the end of a body and behind it a part of a header section, the offsets stay in the
buffers, and what the parsers take out of a buffer was held there. -/
theorem offsets_in_buffers {config : Config} {w : ProxyState} (h : CleanReachable config w) :
    (∀ conn ∈ w.conns, InBuffers conn) ∧ ∀ e, CleanEvent w e → ConsumesHeld w e :=
  ⟨fun conn hconn => (h.tidy conn hconn).inBuffers, fun _ hclean => consumesHeld_of_clean h.tidy hclean⟩

/-! ## Streams of responses -/

section Stream

variable {m : Nat} {first data : List UInt8} {responses : List Response}

/-- In a stream of responses a body ends where one of theirs does. -/
lemma EndsBody.of_prefix {body : List UInt8} (h : EndsBody m first) (hbody : body.length = m)
    (hlengths : ∀ x ∈ responses, StatesLength x.header x.body.length) (hfront : first <+: body ++ stream responses) :
    ∃ before after, responses = before ++ after ∧ first = body ++ stream before := by
  induction h with
  | outstanding hlen =>
    rename_i b
    refine ⟨[], responses, rfl, ?_⟩
    have hle : b <+: body :=
      List.prefix_of_prefix_length_le hfront (List.prefix_append _ _) (hlen.trans hbody.symm).le
    rw [hle.eq_of_length (hlen.trans hbody.symm)]
    simp [stream]
  | response hfirst hend hlength ih =>
    rename_i first header b
    obtain ⟨before, after, hsplit, rfl⟩ := ih ((List.prefix_append _ _).trans hfront)
    have hstream : stream responses = stream before ++ stream after := by
      rw [hsplit, stream, List.flatMap_append]
      rfl
    rw [hstream, ← List.append_assoc body, List.prefix_append_right_inj] at hfront
    cases after with
    | nil =>
      have hpos := hend.length_pos
      have hle := hfront.length_le
      have hnone : (stream []).length = 0 := rfl
      rw [List.length_append, hnone] at hle
      omega
    | cons x after =>
      rw [stream_cons] at hfront
      obtain ⟨more, hmore⟩ := hfront
      -- both header sections end where the search of the same bytes ends
      have hscan := hend.append (b ++ more)
      rw [← List.append_assoc, hmore, x.isResponseHeader.endsSearch.append] at hscan
      obtain ⟨-, hlen⟩ := Prod.mk.inj hscan
      rw [List.append_assoc] at hmore
      obtain ⟨rfl, hrest⟩ := List.append_inj hmore hlen.symm
      have hx : x ∈ responses := by simp [hsplit]
      obtain ⟨behind, hbehind⟩ := hlength
      have hstates := (x.isResponseHeader.contentLength_iff behind _).mp hbehind
      have hblen : b.length = x.body.length := by
        exact_mod_cast x.isResponseHeader.statesLength_unique hstates (hlengths x hx)
      obtain ⟨rfl, -⟩ := List.append_inj hrest hblen
      refine ⟨before ++ [x], after, by simp [hsplit], ?_⟩
      simp [stream, Response.text]

/-- Bytes of a stream of responses that do not end inside a header section are such. -/
lemma headersWhole_of_uncut {s : Server} (body : List UInt8) (hbody : body.length = s.toSendLength.toNat)
    (hlengths : ∀ x ∈ responses, StatesLength x.header x.body.length) (hfront : data <+: body ++ stream responses)
    (huncut : ¬CutsHeader responses (data.length - body.length)) : HeadersWhole s data := by
  rintro - first rest rfl - hrest hends
  obtain ⟨before, after, rfl, rfl⟩ :=
    hends.of_prefix hbody hlengths ((List.prefix_append _ _).trans hfront)
  have hstream : stream (before ++ after) = stream before ++ stream after := by
    rw [stream, List.flatMap_append]
    rfl
  rw [hstream, ← List.append_assoc, List.prefix_append_right_inj] at hfront
  cases after with
  | nil => exact absurd (List.prefix_nil.mp hfront) hrest
  | cons x after =>
    rw [stream_cons] at hfront
    refine ⟨x.header, x.isResponseHeader.endsSearch, ?_⟩
    apply List.prefix_of_prefix_length_le (List.prefix_append _ _) hfront
    by_contra hcut
    have hpos := List.length_pos_of_ne_nil hrest
    refine huncut ⟨before, x, after, rfl, ?_, ?_⟩ <;> simp only [List.length_append] <;> omega

end Stream

section Example

/-- A connection that was accepted and asked for a page. -/
def askedPage : Option ProxyState :=
  (proxyStep (ProxyState.start newConfig) (.accept (bytes "1.0.0.1") (some 5))).bind fun w =>
    proxyStep w (.browser 0 (bytes "GET /a.html HTTP/1.1\r\nHost: b\r\n\r\n"))

/-- A response, and the next one but for its last byte. -/
def oneAndHalf : List UInt8 := pageResponse.text ++ pageResponse.header ++ bytes "o"

/-- The last byte of a body, and a response. -/
def otherHalf : List UInt8 := bytes "k" ++ pageResponse.text

/-- The header sections that are waited for and the outstanding bytes of the bodies. -/
def outstanding (w : ProxyState) : List (Bool × Int) :=
  w.conns.map fun conn => (conn.server.isReady, conn.server.toSendLength)

lemma outstanding_of_eq {w : ProxyState} {x : Bool × Int} (hout : outstanding w = [x]) {conn : ProxyConn}
    (hconn : w.conns[0]? = some conn) : conn.server.toSendLength = x.2 := by
  have hfirst := congrArg (fun l => l[0]?) hout
  unfold outstanding at hfirst
  simp only [List.getElem?_map, hconn, Option.map_some, List.getElem?_cons_zero] at hfirst
  exact congrArg Prod.snd (Option.some.inj hfirst)

lemma pageResponse_statesLength : ∀ x ∈ [pageResponse, pageResponse, pageResponse],
    StatesLength x.header x.body.length := by
  intro x hx
  obtain rfl : x = pageResponse := by simpa using hx
  exact (pageResponse.isResponseHeader.contentLength_iff [] _).mp (by decide +kernel)

/-- Three responses arrive in two parts, cut in the second body. -/
theorem offsets_in_buffers_pipelined :
    ∃ w, CleanReachable newConfig w ∧ w.conns.length = 1 ∧ (∀ conn ∈ w.conns, InBuffers conn) ∧
      ∀ e, CleanEvent w e → ConsumesHeld w e := by
  have hasked : askedPage.map outstanding = some [(true, 0)] := by decide +kernel
  have hhalf : (askedPage.bind fun w => proxyStep w (.server 0 oneAndHalf)).map outstanding = some [(true, 1)] := by
    decide +kernel
  have hall : ((askedPage.bind fun w => proxyStep w (.server 0 oneAndHalf)).bind fun w =>
      proxyStep w (.server 0 otherHalf)).map outstanding = some [(true, 0)] := by
    decide +kernel
  obtain ⟨w₁, hw₁, hout₁⟩ := Option.map_eq_some_iff.mp hasked
  rw [hw₁, Option.bind_some] at hhalf hall
  obtain ⟨w₂, hstep₂, hout₂⟩ := Option.map_eq_some_iff.mp hhalf
  rw [hstep₂, Option.bind_some] at hall
  obtain ⟨w₃, hstep₃, hout₃⟩ := Option.map_eq_some_iff.mp hall
  have hreach₁ : CleanReachable newConfig w₁ := by
    obtain ⟨w₀, haccept, hask⟩ := Option.bind_eq_some_iff.mp hw₁
    exact .step (.browser 0 _) (.step (.accept _ _) .start trivial haccept) trivial hask
  have hstream : oneAndHalf ++ otherHalf = stream [pageResponse, pageResponse, pageResponse] := by decide
  have hreach₂ : CleanReachable newConfig w₂ := by
    refine .step _ hreach₁ ?_ hstep₂
    intro conn hconn
    have hlength := outstanding_of_eq hout₁ hconn
    apply headersWhole_of_uncut [] (by rw [hlength]; rfl) pageResponse_statesLength
    · rw [List.nil_append, ← hstream]
      exact List.prefix_append _ _
    · rw [cutsHeader_cons, cutsHeader_cons, cutsHeader_cons]
      rintro (h | h | h | ⟨before, x, after, h, -⟩)
      iterate 3 exact absurd h (by decide)
      simp at h
  have hreach₃ : CleanReachable newConfig w₃ := by
    refine .step _ hreach₂ ?_ hstep₃
    intro conn hconn
    have hlength := outstanding_of_eq hout₂ hconn
    apply headersWhole_of_uncut (bytes "k") (by rw [hlength]; rfl)
      (List.forall_mem_cons.mp pageResponse_statesLength).2
    · exact ⟨pageResponse.text, by decide⟩
    · rw [cutsHeader_cons, cutsHeader_cons]
      rintro (h | h | ⟨before, x, after, h, -⟩)
      iterate 2 exact absurd h (by decide)
      simp at h
  have hone : w₃.conns.length = 1 := by simpa [outstanding] using congrArg List.length hout₃
  exact ⟨w₃, hreach₃, hone, offsets_in_buffers hreach₃⟩

/-- A response and the first byte of the next one. -/
def andOneByte : List UInt8 := bytes "X: y\r\nContent-Length: 1\r\n\r\nxH"

lemma andOneByte_offset :
    ((handlerServer newConfig (proxyConnCreate newConfig (bytes "1.0.0.1") (some 5)) andOneByte).map fun r =>
      (decide (r.ret < 0), r.conn.server.offset)) = some (false, -26) := by
  decide +kernel

/-- Behind the body of a response the byte that is left makes a header section with old bytes. -/
theorem offset_gets_negative :
    ¬∀ (config : Config) (w : ProxyState), Reachable config w →
      (∀ conn ∈ w.conns, InBuffers conn) ∧ ∀ e, ConsumesHeld w e := by
  intro h
  obtain ⟨r, hcall, hr⟩ := Option.map_eq_some_iff.mp andOneByte_offset
  obtain ⟨hret, hoffset⟩ := Prod.mk.inj hr
  have hkeep : ¬r.ret < 0 := by simpa using hret
  have hreach : Reachable newConfig ⟨r.config, [r.conn], manifestBodies r.dispatched⟩ := by
    apply Reachable.step (.server 0 andOneByte) reachable_one
    simp only [proxyStep, List.getElem?_cons_zero, Option.bind_eq_bind, Option.bind_some, hcall, afterCall,
      if_neg hkeep]
    rfl
  have hin := (h newConfig _ hreach).1 r.conn (List.mem_singleton.mpr rfl)
  have hnonneg := hin.server_nonneg
  rw [hoffset] at hnonneg
  exact absurd hnonneg (by decide)

end Example

end VideoCDN.Proxy
