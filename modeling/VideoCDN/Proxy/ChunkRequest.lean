import VideoCDN.Http.Fields
import VideoCDN.Proxy.RequestStream

/-!
# The request for a chunk

`handler_browser` takes the length to send before `replace_uri_bitrate` writes the bitrate into the
buffer. So what reaches the server is the rewritten request exactly when both have one length.
-/

namespace VideoCDN.Proxy

open CString Buffer Http

/-- `/P/<digits>Seg<s>-Frag<f>` -/
def chunkUri (P digits s f : List UInt8) : List UInt8 :=
  47 :: (P ++ 47 :: (digits ++ (bytes "Seg" ++ s ++ bytes "-Frag" ++ f)))

/-- The text of the request with other digits in its URI. -/
def chunkText (request : Request) (P digits s f : List UInt8) : List UInt8 :=
  requestText request.httpMethod (chunkUri P digits s f) (request.httpVersion.getD []) request.headers

/-- The method and the first part of the URI. -/
def chunkPrefix (request : Request) (P : List UInt8) : List UInt8 := request.httpMethod ++ 32 :: 47 :: P

/-- Everything behind `Seg`. -/
def chunkSuffix (request : Request) (s f : List UInt8) : List UInt8 :=
  s ++ (bytes "-Frag" ++ (f ++ 32 :: (request.httpVersion.getD [] ++ (bytes "\r\n" ++
    (request.headers.flatMap (fun h => h.1 ++ 58 :: (h.2 ++ bytes "\r\n")) ++ bytes "\r\n")))))

lemma chunkText_eq (request : Request) (P digits s f : List UInt8) :
    chunkText request P digits s f =
      chunkPrefix request P ++ 47 :: (digits ++ (bytes "Seg" ++ chunkSuffix request s f)) := by
  simp only [chunkText, requestText, chunkUri, chunkPrefix, chunkSuffix, List.append_assoc, List.cons_append]

/-- The length of the request follows the number of digits. -/
lemma length_chunkText (request : Request) (P digits digits' s f : List UInt8) :
    (chunkText request P digits' s f).length + digits.length =
      (chunkText request P digits s f).length + digits'.length := by
  rw [chunkText_eq, chunkText_eq]
  simp only [List.length_append, List.length_cons]
  omega

lemma chunkText_ne_nil (request : Request) (P digits s f : List UInt8) : chunkText request P digits s f ≠ [] := by
  simp [chunkText_eq]

/-! ## Searching the request -/

lemma lastSlash_append_cons (a : List UInt8) {b : List UInt8} (hb : 47 ∉ b) :
    lastSlash (a ++ 47 :: b) = some a.length := by
  have hnone : b.reverse.findIdx? (· = 47) = none := by
    rw [List.findIdx?_eq_none_iff]
    intro c hc
    simpa using fun h : c = 47 => hb (h ▸ List.mem_reverse.mp hc)
  simp [lastSlash, List.findIdx?_append, hnone, List.findIdx?_cons]

lemma notMem_digits {digits : List UInt8} (hdigits : ∀ c ∈ digits, isdigit c = true) {c : UInt8}
    (hc : isdigit c = false) : c ∉ digits :=
  fun h => ne_of_isdigit (hdigits c h) hc rfl

/-- The first `Seg` is the one behind the digits. -/
lemma strstr_seg {pre digits : List UInt8} (rest : List UInt8) (hpre : ¬bytes "Seg" <:+: pre)
    (hdigits : 83 ∉ digits) :
    strstr (bytes "Seg") (pre ++ 47 :: (digits ++ (bytes "Seg" ++ rest))) =
      some (pre ++ 47 :: digits).length := by
  have hname : strstr (bytes "Seg") (digits ++ (bytes "Seg" ++ rest)) = some digits.length :=
    strstr_append_of_head_notMem (bytes "eg") hdigits rest
  rw [strstr_skip (by decide) hpre, hname, Option.map_some, List.length_append, List.length_cons, Option.some.injEq]
  omega

/-- What is between the last slash and the first `Seg` is replaced, as far as the result fits. -/
lemma replaceUriBitrate_found {pre name rest : List UInt8}
    (hseg : strstr (bytes "Seg") (pre ++ 47 :: (name ++ (bytes "Seg" ++ rest))) = some (pre ++ 47 :: name).length)
    (hname : 47 ∉ name) (hstring : IsString (pre ++ 47 :: (name ++ (bytes "Seg" ++ rest)))) (bitrate : Int) :
    ∃ tail, replaceUriBitrate maxReqSize (pre ++ 47 :: (name ++ (bytes "Seg" ++ rest))) bitrate =
      some (1, (pre ++ 47 :: (decimalInt bitrate ++ (bytes "Seg" ++ rest))).take (maxReqSize - 1) ++ 0 :: tail) := by
  have hassoc : pre ++ 47 :: (name ++ (bytes "Seg" ++ rest)) = pre ++ 47 :: name ++ (bytes "Seg" ++ rest) := by
    simp
  have hslash := lastSlash_append_cons pre hname
  have htake : (pre ++ 47 :: name ++ (bytes "Seg" ++ rest)).take pre.length = pre := by
    rw [List.append_assoc, List.take_left]
  have hcstr := cstr_eq_self _ hstring
  rw [hassoc] at hcstr hseg ⊢
  unfold replaceUriBitrate
  simp only [hcstr, hseg, List.take_left, List.drop_left, hslash, if_neg (take_fits _), put_zero, htake,
    Option.some.injEq, Prod.mk.injEq, true_and]
  rw [List.append_assoc]
  exact ⟨_, rfl⟩

/-- The buffer after the rewriting starts with the rewritten text, as far as it fits. -/
lemma replaceUriBitrate_chunk {pre digits rest : List UInt8} (hpre : ¬bytes "Seg" <:+: pre)
    (hdigits : ∀ c ∈ digits, isdigit c = true)
    (hstring : IsString (pre ++ 47 :: (digits ++ (bytes "Seg" ++ rest)))) (bitrate : Int) :
    ∃ tail, replaceUriBitrate maxReqSize (pre ++ 47 :: (digits ++ (bytes "Seg" ++ rest))) bitrate =
      some (1, (pre ++ 47 :: (decimalInt bitrate ++ (bytes "Seg" ++ rest))).take (maxReqSize - 1) ++ 0 :: tail) :=
  replaceUriBitrate_found (strstr_seg rest hpre (notMem_digits hdigits (by decide)))
    (notMem_digits hdigits (by decide)) hstring bitrate

/-- A `Seg` in the method is found first, and no slash comes before it. -/
lemma replaceUriBitrate_method {method rest : List UInt8} (hmethod : bytes "Seg" <:+: method) (hslash : 47 ∉ method)
    (hstring : IsString (method ++ rest)) (bitrate : Int) :
    replaceUriBitrate maxReqSize (method ++ rest) bitrate = none := by
  obtain ⟨i, hi⟩ := Option.isSome_iff_exists.mp ((strstr_isSome_iff (bytes "Seg") method).mpr hmethod)
  obtain ⟨hfirst, hle⟩ := strstr_append_of_eq_some hi rest
  have hnone : lastSlash ((method ++ rest).take i) = none := by
    rw [List.take_append_of_le_length (by omega)]
    rw [← Option.not_isSome_iff_eq_none, lastSlash_isSome_iff]
    exact fun h => hslash (List.mem_of_mem_take h)
  unfold replaceUriBitrate
  simp only [cstr_eq_self _ hstring, hfirst, hnone]

/-! ## The request sent -/

section Sent

variable {config : Config} {conn : ProxyConn} {data buf : List UInt8} {request : Request} {bitrate : Int}

/-- What a call for a chunk request sends. -/
lemma handlerBrowser_chunk_iff (hrecv : receive conn.browser.buf conn.browser.offset data = some buf)
    (hparse : parse buf data.length = some request) (hstatus : ¬request.status < 0)
    (htype : checkType request = .chunk) (hfd : ¬conn.server.fd < 0)
    (hbitrate : selectBitrate (chooseList config conn) conn.tCurr = some bitrate) (sent : List Sent) :
    (∃ r, handlerBrowser config conn data = some r ∧ r.sent = sent) ↔
      ∃ text chunkName ret newBuf, constructHttpReq request = some text ∧
        getVideoName request.httpUri conn.server.chunkName = some chunkName ∧
        replaceUriBitrate maxReqSize text bitrate = some (ret, newBuf) ∧
        sendData .server (fetch newBuf 0 text.length) = sent := by
  -- the choice and the socket do not depend on the browser's buffer
  obtain ⟨conn₁, hconn₁⟩ : ∃ conn₁, conn.setBrowser
      (moveToFront buf request.position (conn.browser.offset + data.length - request.position))
      (conn.browser.offset + data.length - request.position) (some request) .chunk = conn₁ := ⟨_, rfl⟩
  have hfd₁ : ¬conn₁.server.fd < 0 := by rw [← hconn₁]; exact hfd
  have hbitrate₁ : selectBitrate (chooseList config conn₁) conn₁.tCurr = some bitrate := by
    rw [← hconn₁]
    exact hbitrate
  have hname : conn₁.server.chunkName = conn.server.chunkName := by rw [← hconn₁]; rfl
  simp only [handlerBrowser, hrecv, hparse, Option.bind_eq_bind, Option.bind_some, if_neg hstatus, htype, hconn₁,
    if_neg hfd₁, forwardRequest, forwardChunk, hbitrate₁, hname, Option.bind_eq_some_iff, Option.pure_def,
    Option.some.injEq]
  constructor
  · rintro ⟨r, ⟨⟨config', conn', sent'⟩, ⟨text, htext, chunkName, hchunk, ⟨ret, newBuf⟩, hreplace, heq⟩, rfl⟩, rfl⟩
    exact ⟨text, chunkName, ret, newBuf, htext, hchunk, hreplace, congrArg (fun p => p.2.2) heq⟩
  · rintro ⟨text, chunkName, ret, newBuf, htext, hchunk, hreplace, rfl⟩
    exact ⟨_, ⟨_, ⟨text, htext, chunkName, hchunk, _, hreplace, rfl⟩, rfl⟩, rfl⟩

end Sent

section Chunk

variable {request : Request} {P digits s f : List UInt8}

lemma httpVersion_of_chunkUri (hclean : request.IsClean) (huri : request.httpUri = chunkUri P digits s f) :
    ∃ version, request.httpVersion = some version :=
  Option.isSome_iff_exists.mp (hclean.versionSet (by rw [huri]; simp [chunkUri]))

lemma constructHttpReq_chunk_iff (hclean : request.IsClean) (huri : request.httpUri = chunkUri P digits s f)
    (text : List UInt8) :
    constructHttpReq request = some text ↔ text = chunkText request P digits s f ∧ text.length < maxReqSize := by
  obtain ⟨version, hversion⟩ := httpVersion_of_chunkUri hclean huri
  rw [constructHttpReq_eq_some_iff, chunkText, hversion, huri, Option.getD_some]
  constructor
  · rintro ⟨v, hv, htext⟩
    obtain rfl := Option.some.inj hv
    exact htext
  · intro htext
    exact ⟨version, rfl, htext⟩

lemma chunkText_isString (hclean : request.IsClean) (huri : request.httpUri = chunkUri P digits s f) :
    IsString (chunkText request P digits s f) := by
  obtain ⟨version, hversion⟩ := httpVersion_of_chunkUri hclean huri
  rw [chunkText, hversion, Option.getD_some, ← huri]
  exact requestText_isString hclean hversion hclean.uri

lemma not_infix_chunkPrefix (hmethod : ¬bytes "Seg" <:+: request.httpMethod) (hP : ¬bytes "Seg" <:+: P) :
    ¬bytes "Seg" <:+: chunkPrefix request P := by
  intro h
  rw [chunkPrefix, infix_append_cons_iff (by decide), ← List.nil_append (47 :: P),
    infix_append_cons_iff (by decide)] at h
  rcases h with h | h | h
  · exact hmethod h
  · exact absurd h (by decide)
  · exact hP h

lemma replaceUriBitrate_chunkText (hclean : request.IsClean) (huri : request.httpUri = chunkUri P digits s f)
    (hP : ¬bytes "Seg" <:+: P) (hdigits : ∀ c ∈ digits, isdigit c = true) (bitrate : Int) :
    (¬bytes "Seg" <:+: request.httpMethod ∧ ∃ tail,
        replaceUriBitrate maxReqSize (chunkText request P digits s f) bitrate =
          some (1, (chunkText request P (decimalInt bitrate) s f).take (maxReqSize - 1) ++ tail)) ∨
      (bytes "Seg" <:+: request.httpMethod ∧
        replaceUriBitrate maxReqSize (chunkText request P digits s f) bitrate = none) := by
  have hstring := chunkText_isString hclean huri
  by_cases hmethod : bytes "Seg" <:+: request.httpMethod
  · refine Or.inr ⟨hmethod, ?_⟩
    rw [chunkText, requestText, List.append_assoc] at hstring ⊢
    exact replaceUriBitrate_method hmethod (fun h => (hclean.method 47 h).2 rfl) hstring bitrate
  · refine Or.inl ⟨hmethod, ?_⟩
    rw [chunkText_eq] at hstring
    rw [chunkText_eq, chunkText_eq]
    obtain ⟨tail, hreplace⟩ := replaceUriBitrate_chunk (not_infix_chunkPrefix hmethod hP) hdigits hstring bitrate
    exact ⟨0 :: tail, hreplace⟩

end Chunk

/-- What the server receives for an accepted chunk request is the rewritten request exactly when
the decimal of the bitrate has as many characters as the digits, the method does not contain
`Seg`, the URI fits `chunk_name` and the request leaves room for its terminator. -/
theorem chunk_request_sent_iff (config : Config) (conn : ProxyConn) (data buf : List UInt8)
    (hrecv : receive conn.browser.buf conn.browser.offset data = some buf) (request : Request)
    (hparse : parse buf data.length = some request) (hstatus : ¬request.status < 0)
    (htype : checkType request = .chunk) (hfd : ¬conn.server.fd < 0) (P digits s f : List UInt8)
    (huri : request.httpUri = chunkUri P digits s f) (hP : ¬bytes "Seg" <:+: P)
    (hdigits : ∀ c ∈ digits, isdigit c = true) (bitrate : Int)
    (hbitrate : selectBitrate (chooseList config conn) conn.tCurr = some bitrate) :
    (∃ r, handlerBrowser config conn data = some r ∧
        r.sent = [⟨.server, chunkText request P (decimalInt bitrate) s f⟩]) ↔
      (decimalInt bitrate).length = digits.length ∧ ¬bytes "Seg" <:+: request.httpMethod ∧
        request.httpUri.length < chunkNameSize ∧
        (chunkText request P (decimalInt bitrate) s f).length < maxReqSize := by
  have hclean := parse_isClean hparse
  have hlen := length_chunkText request P digits (decimalInt bitrate) s f
  rw [handlerBrowser_chunk_iff hrecv hparse hstatus htype hfd hbitrate]
  constructor
  · rintro ⟨text, chunkName, ret, newBuf, hconstruct, hname, hreplace, hsent⟩
    obtain ⟨rfl, hfits⟩ := (constructHttpReq_chunk_iff hclean huri text).mp hconstruct
    have hsame : fetch newBuf 0 (chunkText request P digits s f).length =
        chunkText request P (decimalInt bitrate) s f := by
      unfold sendData at hsent
      split at hsent
      · cases hsent
      · simpa using hsent
    have hwidth := congrArg List.length hsame
    rw [length_fetch] at hwidth
    refine ⟨by omega, ?_, ?_, by omega⟩
    · rcases replaceUriBitrate_chunkText hclean huri hP hdigits bitrate with ⟨hmethod, -⟩ | ⟨-, hnone⟩
      · exact hmethod
      · rw [hnone] at hreplace
        cases hreplace
    · unfold getVideoName at hname
      split at hname
      · cases hname
      · omega
  · rintro ⟨hwidth, hmethod, hname, hfits⟩
    rcases replaceUriBitrate_chunkText hclean huri hP hdigits bitrate with ⟨-, tail, hreplace⟩ | ⟨hno, -⟩
    · refine ⟨chunkText request P digits s f, _, 1, _,
        (constructHttpReq_chunk_iff hclean huri _).mpr ⟨rfl, by omega⟩, if_neg (not_le.mpr hname), hreplace, ?_⟩
      have hlength : (chunkText request P digits s f).length =
          (chunkText request P (decimalInt bitrate) s f).length := by omega
      rw [List.take_of_length_le (by omega), hlength, fetch_eq_take_drop _ (by simp), List.drop_zero,
        List.take_left, sendData, if_neg (chunkText_ne_nil _ _ _ _ _)]
    · exact absurd hno hmethod

section Example

/-- A connection whose manifest has one bitrate. -/
def chunkConn (bitrate : Int) : ProxyConn := { newConn with bitrateList := [bitrate] }

lemma isdigit_hundred : ∀ c ∈ bytes "100", isdigit c = true :=
  List.all_eq_true.mp (by decide : (bytes "100").all isdigit = true)

def chunkData : List UInt8 := bytes "GET /v/100Seg1-Frag1 HTTP/1.1\r\nHost: b\r\n\r\n"

def chunkRequest : Request :=
  ⟨bytes "GET", chunkUri (bytes "v") (bytes "100") (bytes "1") (bytes "1"), some (bytes "HTTP/1.1"),
    [(bytes "Host", bytes "b")], 1, 0, success, 42⟩

lemma parse_chunkData : parse chunkData chunkData.length = some chunkRequest := by decide +kernel

theorem chunk_request_sent_iff_500 :
    (∃ r, handlerBrowser newConfig (chunkConn 500) chunkData = some r ∧
        r.sent = [⟨.server, chunkText chunkRequest (bytes "v") (decimalInt 500) (bytes "1") (bytes "1")⟩]) ↔
      (decimalInt 500).length = (bytes "100").length ∧ ¬bytes "Seg" <:+: chunkRequest.httpMethod ∧
        chunkRequest.httpUri.length < chunkNameSize ∧
        (chunkText chunkRequest (bytes "v") (decimalInt 500) (bytes "1") (bytes "1")).length < maxReqSize :=
  chunk_request_sent_iff newConfig (chunkConn 500) chunkData chunkData (by decide) chunkRequest parse_chunkData
    (by decide) (by decide) (by decide) (bytes "v") (bytes "100") (bytes "1") (bytes "1") rfl (by decide)
    isdigit_hundred 500 (by decide)

/-- With a bitrate of four digits for three the last byte of the request is not sent. -/
theorem longer_bitrate_truncates_request :
    ¬∀ (config : Config) (conn : ProxyConn) (data buf : List UInt8),
      receive conn.browser.buf conn.browser.offset data = some buf → ∀ (request : Request),
      parse buf data.length = some request → ¬request.status < 0 → checkType request = .chunk →
      ¬conn.server.fd < 0 → ∀ (P digits s f : List UInt8), request.httpUri = chunkUri P digits s f →
      ¬bytes "Seg" <:+: P → (∀ c ∈ digits, isdigit c = true) → ∀ (bitrate : Int),
      selectBitrate (chooseList config conn) conn.tCurr = some bitrate →
      (chunkText request P (decimalInt bitrate) s f).length ≤ maxReqSize →
      ∃ r, handlerBrowser config conn data = some r ∧
        r.sent = [⟨.server, chunkText request P (decimalInt bitrate) s f⟩] := by
  intro h
  obtain ⟨r, hcall, hsent⟩ := h newConfig (chunkConn 1000) chunkData chunkData (by decide) chunkRequest
    parse_chunkData (by decide) (by decide) (by decide) (bytes "v") (bytes "100") (bytes "1") (bytes "1") rfl
    (by decide) isdigit_hundred 1000 (by decide) (by decide)
  have hactual : (handlerBrowser newConfig (chunkConn 1000) chunkData).map BrowserResult.sent =
      some [⟨.server, bytes "GET /v/1000Seg1-Frag1 HTTP/1.1\r\nHost:b\r\n\r"⟩] := by decide +kernel
  rw [hcall, Option.map_some, Option.some.injEq, hsent] at hactual
  exact absurd hactual (by decide +kernel)

end Example

end VideoCDN.Proxy
