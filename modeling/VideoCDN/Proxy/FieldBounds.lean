import VideoCDN.Http.HeaderSection
import VideoCDN.Http.LineTokens
import VideoCDN.Proxy.Connection

/-!
# The bounds of a request

The strings the grammar reads are copied without a check. The text that is built from them is at most
as long as the request, so of all copies only this one, up to the last byte, is bounded by the size of
the buffer the request was received in.
-/

namespace VideoCDN.Proxy

open CString Http

/-- What the grammar reads of a request; the request line is optional. -/
structure Parts where
  requestLine : Option (List UInt8 × List UInt8 × List UInt8)
  headers : List (List UInt8 × List UInt8)
  deriving DecidableEq

/-- The headers up to the empty line, without the actions. -/
def readHeaders : Nat → List Token → Option (List (List UInt8 × List UInt8))
  | 0, _ => none
  | fuel + 1, ts => do
    let (header, ts) ← requestHeader ts
    if ts.head? = some .crlf then some [header] else (readHeaders fuel ts).map (header :: ·)

/-- The parts of a request that the grammar accepts. -/
def readParts (ts : List Token) : Option Parts :=
  if (ts.head?.bind allowedCharForToken).isSome then do
    let (line, ts) ← requestLine ts
    let headers ← readHeaders ts.length ts
    return ⟨some line, headers⟩
  else (readHeaders ts.length (ows ts)).map fun headers => ⟨none, headers⟩

/-- The first `size` bytes are the header section of a request with these parts. -/
def Accepts (x : List UInt8) (size : Nat) (parts : Parts) : Prop :=
  scanHeader .start x 0 = (.crlfcrlf, size) ∧ readParts (lex (x.take size)) = some parts

/-- Name and value fit the fields of a header. -/
def HeaderFits (h : List UInt8 × List UInt8) : Prop := h.1.length + 1 ≤ 4096 ∧ h.2.length + 1 ≤ 4096

namespace Parts

variable (parts : Parts)

/-- The request as the actions leave it, where every string fits. -/
def request : Request :=
  { newRequest 0 with
    httpMethod := (parts.requestLine.map Prod.fst).getD []
    httpUri := (parts.requestLine.map fun line => line.2.1).getD []
    httpVersion := parts.requestLine.map fun line => line.2.2
    headers := parts.headers.reverse
    headerCount := parts.headers.length }

/-- The text built for the server; without a request line no version was written. -/
def text : Option (List UInt8) :=
  parts.requestLine.map fun line => requestText line.1 line.2.1 line.2.2 parts.headers.reverse

/-- Every string fits its destination, with its terminator. -/
structure CopiesFit : Prop where
  line : ∀ method uri version, parts.requestLine = some (method, uri, version) →
    method.length + 1 ≤ 50 ∧ uri.length + 1 ≤ 4096 ∧ version.length + 1 ≤ 50
  headers : ∀ h ∈ parts.headers, HeaderFits h
  chunkName : checkType parts.request = .chunk → parts.request.httpUri.length + 1 ≤ chunkNameSize
  text : ∃ text, parts.text = some text ∧ text.length + 1 ≤ maxReqSize

/-- The longest URI of a request of its type. -/
def maxUri : Nat := if checkType parts.request = .chunk then 511 else 4095

/-- The request has a request line, no string is too long, and the request does not fill the buffer
with bytes that all come back in the text built from it. -/
structure IsBounded (size : Nat) : Prop where
  line : ∃ method uri version, parts.requestLine = some (method, uri, version) ∧
    method.length ≤ 49 ∧ uri.length ≤ parts.maxUri ∧ version.length ≤ 49
  headers : ∀ h ∈ parts.headers, h.1.length ≤ 4095 ∧ h.2.length ≤ 4095
  text : size < maxReqSize ∨ ∀ text, parts.text = some text → text.length < size

end Parts

/-! ## The length of the text -/

/-- The number of bytes the tokens stand for. -/
def textLength (ts : List Token) : Nat := (ts.flatMap Token.text).length

@[simp] lemma textLength_cons (t : Token) (ts : List Token) : textLength (t :: ts) = t.text.length + textLength ts := by
  simp [textLength]

@[simp] lemma textLength_append (ts ts' : List Token) : textLength (ts ++ ts') = textLength ts + textLength ts' := by
  simp [textLength]

lemma textLength_spells {ts : List Token} {s : List UInt8} (h : Spells ts s) : textLength ts = s.length := by
  rw [textLength, h.2]

/-- A match is at least as long as its token. -/
lemma lexOne_textLength (b : UInt8) (bs : List UInt8) :
    textLength (lexOne b bs).1.toList + (lexOne b bs).2.length ≤ bs.length + 1 := by
  have hdrop : ∀ s : List UInt8, (s.takeWhile isBlank).length + (s.dropWhile isBlank).length = s.length := by
    intro s
    rw [← List.length_append, List.takeWhile_append_dropWhile]
  have hbs := hdrop bs
  have hone : ∀ t : Token, t.text.length = 1 → textLength (some t).toList + bs.length ≤ bs.length + 1 := by
    intro t ht
    rw [Option.toList_some, textLength_cons, ht, Nat.add_comm]
    exact le_rfl
  unfold lexOne
  dsimp only
  split_ifs with hcrlf hrun hblank hsp hslash hdigit hdot hcolon hsep htoken
  · cases bs with
    | nil => exact absurd hcrlf.2 (by simp)
    | cons c bs =>
      simp [textLength, Token.text]
      omega
  · cases bs with
    | nil => exact absurd hcrlf.2 (by simp)
    | cons c bs =>
      have hle := hdrop bs
      simp [textLength, Token.text]
      omega
  · simp [textLength, Token.text]
    omega
  · simp [textLength, Token.text]
    omega
  · exact hone _ rfl
  · exact hone _ rfl
  · exact hone _ rfl
  · exact hone _ rfl
  · exact hone _ rfl
  · exact hone _ rfl
  · simp [textLength]

lemma textLength_lex (input : List UInt8) : textLength (lex input) ≤ input.length := by
  obtain ⟨n, hn⟩ : ∃ n, input.length = n := ⟨_, rfl⟩
  induction n using Nat.strong_induction_on generalizing input with
  | _ n ih =>
    cases input with
    | nil => exact Nat.zero_le _
    | cons b bs =>
      have hone := lexOne_textLength b bs
      have hrest := ih (lexOne b bs).2.length
        (by rw [← hn, List.length_cons]; have := lexOne_length_le b bs; omega) (lexOne b bs).2 rfl
      rw [lex_cons, textLength_append, List.length_cons]
      omega

/-- The text of the headers, with the empty line. -/
def headersText (headers : List (List UInt8 × List UInt8)) : List UInt8 :=
  headers.flatMap (fun h => h.1 ++ 58 :: (h.2 ++ bytes "\r\n")) ++ bytes "\r\n"

lemma length_headersText_cons (h : List UInt8 × List UInt8) (headers : List (List UInt8 × List UInt8)) :
    (headersText (h :: headers)).length = h.1.length + h.2.length + 3 + (headersText headers).length := by
  have hcrlf : (bytes "\r\n").length = 2 := by decide
  simp only [headersText, List.flatMap_cons, List.length_append, List.length_cons, hcrlf]
  omega

lemma length_headersText_reverse (headers : List (List UInt8 × List UInt8)) :
    (headersText headers.reverse).length = (headersText headers).length := by
  unfold headersText
  rw [List.length_append, List.length_append, ((List.reverse_perm headers).flatMap_right _).length_eq]

lemma AllLexed.ows {ts : List Token} (hts : AllLexed ts) : AllLexed (ows ts) := by
  obtain ⟨A, s, h, -, -⟩ := ows_spec hts
  rw [h] at hts
  exact hts.right

/-- The first header, and the others unless the empty line follows. -/
lemma readHeaders_succ {fuel : Nat} {ts : List Token} {headers : List (List UInt8 × List UInt8)}
    (h : readHeaders (fuel + 1) ts = some headers) :
    ∃ header ts' rest, requestHeader ts = some (header, ts') ∧ headers = header :: rest ∧
      ((∃ ts'', ts' = .crlf :: ts'') ∧ rest = [] ∨
        ts'.head? ≠ some .crlf ∧ readHeaders fuel ts' = some rest) := by
  simp only [readHeaders, Option.bind_eq_bind, Option.bind_eq_some_iff] at h
  obtain ⟨⟨header, ts'⟩, hheader, h⟩ := h
  split at h
  · rename_i hend
    exact ⟨header, ts', [], hheader, (Option.some.inj h).symm, Or.inl ⟨List.head?_eq_some_iff.mp hend, rfl⟩⟩
  · rename_i hend
    obtain ⟨rest, hread, hrest⟩ := Option.map_eq_some_iff.mp h
    exact ⟨header, ts', rest, hheader, hrest.symm, Or.inr ⟨hend, hread⟩⟩

lemma readHeaders_length {fuel : Nat} {ts : List Token} (hts : AllLexed ts)
    {headers : List (List UInt8 × List UInt8)} (h : readHeaders fuel ts = some headers) :
    (headersText headers).length ≤ textLength ts := by
  induction fuel generalizing ts headers with
  | zero => cases h
  | succ fuel ih =>
    obtain ⟨⟨name, value⟩, ts', rest, hheader, rfl, hrest⟩ := readHeaders_succ h
    obtain ⟨⟨A, line, rfl, hA, b₁, b₂, b₃, -, rfl⟩, -, -⟩ := requestHeader_spec hts hheader
    have hline := textLength_spells hA
    have htail := hts.right.tail
    simp only [List.length_append, List.length_cons] at hline
    rw [textLength_append, textLength_cons, hline, length_headersText_cons]
    rcases hrest with ⟨⟨ts'', rfl⟩, rfl⟩ | ⟨-, hread⟩
    · have hempty : (headersText []).length = 2 := by decide
      rw [textLength_cons]
      simp only [hempty, Token.text, List.length_cons, List.length_nil]
      omega
    · have htext := ih htail hread
      simp only [Token.text, List.length_cons, List.length_nil]
      omega

/-- The text built from an accepted request is at most as long as its header section. -/
theorem Accepts.length_text_le {x : List UInt8} {size : Nat} {parts : Parts} (h : Accepts x size parts)
    {text : List UInt8} (htext : parts.text = some text) : text.length ≤ size := by
  obtain ⟨hscan, hread⟩ := h
  have hlex := textLength_lex (x.take size)
  have hle : (x.take size).length ≤ size := by
    rw [List.length_take]
    exact min_le_left _ _
  unfold readParts at hread
  split at hread
  · simp only [Option.bind_eq_bind, Option.bind_eq_some_iff, Option.pure_def, Option.some.injEq] at hread
    obtain ⟨⟨⟨method, uri, version⟩, ts⟩, hline, headers, hheaders, rfl⟩ := hread
    obtain rfl := Option.some.inj htext
    have hts : AllLexed (lex (x.take size)) := lex_lexed (x.take size)
    obtain ⟨⟨A, hA, hspells⟩, -, -, -⟩ := requestLine_spec hts hline
    rw [hA] at hts hlex
    have hrest : (headersText headers).length ≤ textLength ts := readHeaders_length hts.right.tail hheaders
    have hlen := textLength_spells hspells
    have hcrlf : (bytes "\r\n").length = 2 := by decide
    rw [textLength_append, textLength_cons, hlen] at hlex
    rw [← length_headersText_reverse] at hrest
    unfold requestText
    rw [List.length_append]
    change _ + (headersText headers.reverse).length ≤ size
    simp only [List.length_append, List.length_cons, hcrlf, Token.text, List.length_nil] at hlex ⊢
    omega
  · obtain ⟨headers, -, rfl⟩ := Option.map_eq_some_iff.mp hread
    cases htext

/-! ## The copies of the program -/

/-- The number of a `Content-Length` header fits an `int`. -/
def HasNumber (h : List UInt8 × List UInt8) : Prop :=
  strcaseeq h.1 (bytes "Content-Length") = true → (atoi h.2).isSome

lemma addHeader_isSome_iff (r : Request) {h : List UInt8 × List UInt8} (hnumber : HasNumber h) :
    (addHeader r h.1 h.2).isSome ↔ HeaderFits h := by
  obtain ⟨n, hn⟩ : ∃ n, headerLength r h.1 h.2 = some n := by
    unfold headerLength
    split
    · rename_i hname
      exact Option.isSome_iff_exists.mp (hnumber hname)
    · exact ⟨_, rfl⟩
  unfold addHeader HeaderFits
  split
  · rename_i hlong
    simp only [Option.isSome_none, Bool.false_eq_true, false_iff]
    omega
  · rename_i hshort
    simp only [hn, Option.bind_eq_bind, Option.bind_some, Option.pure_def, Option.isSome_some, true_iff]
    omega

/-- The actions run on the headers that are read, up to the first that does not fit. -/
lemma requestHeaders_read {fuel : Nat} {ts : List Token} {headers : List (List UInt8 × List UInt8)}
    (h : readHeaders fuel ts = some headers) (hnumbers : ∀ h ∈ headers, HasNumber h) (r : Request) :
    ((requestHeaders fuel ts r).isSome ↔ ∀ h ∈ headers, HeaderFits h) ∧
      ∀ ret r', requestHeaders fuel ts r = some (ret, r') → ret = 0 ∧ r'.headers = headers.reverse ++ r.headers := by
  induction fuel generalizing ts headers r with
  | zero => cases h
  | succ fuel ih =>
    obtain ⟨⟨name, value⟩, ts', rest, hheader, rfl, hrest⟩ := readHeaders_succ h
    rw [List.forall_mem_cons] at hnumbers ⊢
    have hadd := addHeader_isSome_iff r hnumbers.1
    rw [requestHeaders, hheader]
    dsimp only at hadd ⊢
    cases hr : addHeader r name value with
    | none =>
      rw [hr] at hadd
      have hno : ¬HeaderFits (name, value) := fun hfits => Bool.false_ne_true (hadd.mpr hfits)
      simp [hno]
    | some r₁ =>
      obtain ⟨n, rfl⟩ := addHeader_eq hr
      rw [hr] at hadd
      have hfits : HeaderFits (name, value) := hadd.mp rfl
      simp only [Option.bind_eq_bind, Option.bind_some]
      rcases hrest with ⟨⟨ts'', rfl⟩, rfl⟩ | ⟨hend, hread⟩
      · refine ⟨iff_of_true rfl ⟨hfits, by simp⟩, fun ret r' h' => ?_⟩
        obtain ⟨rfl, rfl⟩ := Prod.mk.inj (Option.some.inj h')
        exact ⟨rfl, rfl⟩
      · obtain ⟨hsome, hfields⟩ := ih hread hnumbers.2
          { r with contentLength := n, headers := (name, value) :: r.headers, headerCount := r.headerCount + 1 }
        split
        · exact absurd rfl hend
        · refine ⟨hsome.trans ⟨fun hall => ⟨hfits, hall⟩, And.right⟩, fun ret r' h' => ?_⟩
          obtain ⟨hret, hheaders⟩ := hfields ret r' h'
          refine ⟨hret, ?_⟩
          rw [hheaders, List.reverse_cons, List.append_assoc]
          rfl

/-- The fields of the request that are copied later. -/
def SameFields (r r' : Request) : Prop :=
  r.httpMethod = r'.httpMethod ∧ r.httpUri = r'.httpUri ∧ r.httpVersion = r'.httpVersion ∧ r.headers = r'.headers

lemma setRequestLine_isSome_iff (r : Request) (method uri version : List UInt8) :
    (setRequestLine r method uri version).isSome ↔
      method.length + 1 ≤ 50 ∧ uri.length + 1 ≤ 4096 ∧ version.length + 1 ≤ 50 := by
  unfold setRequestLine
  split
  · rename_i hfits
    exact iff_of_true rfl hfits
  · rename_i hlong
    exact iff_of_false Bool.false_ne_true hlong

lemma yyparse_read {ts : List Token} {parts : Parts} (h : readParts ts = some parts)
    (hnumbers : ∀ h ∈ parts.headers, HasNumber h) (i : Nat) :
    ((yyparse ts (newRequest i)).isSome ↔
        (∀ method uri version, parts.requestLine = some (method, uri, version) →
          method.length + 1 ≤ 50 ∧ uri.length + 1 ≤ 4096 ∧ version.length + 1 ≤ 50) ∧
        ∀ h ∈ parts.headers, HeaderFits h) ∧
      ∀ ret r, yyparse ts (newRequest i) = some (ret, r) → ret = 0 ∧ SameFields r parts.request := by
  unfold readParts at h
  unfold yyparse
  split at h
  · rename_i htoken
    simp only [Option.bind_eq_bind, Option.bind_eq_some_iff, Option.pure_def, Option.some.injEq] at h
    obtain ⟨⟨⟨method, uri, version⟩, ts'⟩, hline, headers, hheaders, rfl⟩ := h
    have hset := setRequestLine_isSome_iff (newRequest i) method uri version
    have hparts : (∀ m u v, some (method, uri, version) = some (m, u, v) →
        m.length + 1 ≤ 50 ∧ u.length + 1 ≤ 4096 ∧ v.length + 1 ≤ 50) ↔
        method.length + 1 ≤ 50 ∧ uri.length + 1 ≤ 4096 ∧ version.length + 1 ≤ 50 := by
      constructor
      · exact fun h => h method uri version rfl
      · rintro h m u v ⟨⟩
        exact h
    rw [if_pos htoken, hline, hparts, ← hset]
    dsimp only
    cases hr : setRequestLine (newRequest i) method uri version with
    | none => simp
    | some r =>
      obtain ⟨hsome, hfields⟩ := requestHeaders_read hheaders hnumbers r
      have hr' : r = { newRequest i with httpMethod := method, httpUri := uri, httpVersion := some version } := by
        unfold setRequestLine at hr
        split at hr
        · exact (Option.some.inj hr).symm
        · cases hr
      refine ⟨hsome.trans ⟨fun hall => ⟨rfl, hall⟩, And.right⟩, fun ret r' h' => ?_⟩
      obtain ⟨hret, hheaders'⟩ := hfields ret r' h'
      obtain ⟨n, hs, count, rfl⟩ := requestHeaders_frame h'
      subst hr'
      refine ⟨hret, rfl, rfl, rfl, ?_⟩
      rw [hheaders']
      exact List.append_nil _
  · rename_i htoken
    obtain ⟨headers, hheaders, rfl⟩ := Option.map_eq_some_iff.mp h
    rw [if_neg htoken]
    obtain ⟨hsome, hfields⟩ := requestHeaders_read hheaders hnumbers (newRequest i)
    refine ⟨hsome.trans ⟨fun hall => ⟨fun _ _ _ h => (by cases h), hall⟩, And.right⟩, fun ret r' h' => ?_⟩
    obtain ⟨hret, hheaders'⟩ := hfields ret r' h'
    obtain ⟨n, hs, count, rfl⟩ := requestHeaders_frame h'
    refine ⟨hret, rfl, rfl, rfl, ?_⟩
    rw [hheaders']
    exact List.append_nil _

/-- The copies fit exactly where the program parses the request and builds its text. -/
theorem copiesFit_iff_defined {x : List UInt8} {size : Nat} {parts : Parts} (haccepts : Accepts x size parts)
    (hnumbers : ∀ h ∈ parts.headers, HasNumber h) :
    parts.CopiesFit ↔ ∃ request text, parse x x.length = some request ∧ constructHttpReq request = some text ∧
      (checkType request = .chunk → ∀ chunkName, (getVideoName request.httpUri chunkName).isSome) := by
  obtain ⟨hscan, hread⟩ := haccepts
  obtain ⟨hsome, hfields⟩ := yyparse_read hread hnumbers size
  have hname : ∀ uri chunkName, (getVideoName uri chunkName).isSome ↔ uri.length + 1 ≤ chunkNameSize := by
    intro uri chunkName
    unfold getVideoName
    split
    · rename_i hlong
      exact iff_of_false Bool.false_ne_true (by omega)
    · rename_i hshort
      exact iff_of_true rfl (by omega)
  have htext : ∀ {r text}, SameFields r parts.request →
      (constructHttpReq r = some text ↔ parts.text = some text ∧ text.length + 1 ≤ maxReqSize) := by
    rintro r text ⟨hmethod, huri, hversion, hheaders⟩
    rw [constructHttpReq_eq_some_iff, hmethod, huri, hversion, hheaders]
    unfold Parts.text Parts.request
    cases parts.requestLine with
    | none => simp
    | some line =>
      simp only [Option.map_some, Option.getD_some, Option.some.injEq, exists_eq_left', Nat.succ_le_iff]
      rw [eq_comm]
  have htype : ∀ {r}, SameFields r parts.request → checkType r = checkType parts.request := by
    rintro r ⟨-, huri, -⟩
    unfold checkType
    rw [huri]
  unfold parse
  rw [List.take_length, hscan]
  simp only [if_true, Option.bind_eq_bind, Option.bind_eq_some_iff, Option.pure_def, Option.some.injEq]
  constructor
  · rintro ⟨hline, hheaders, hchunk, text, hparts, hle⟩
    obtain ⟨⟨ret, r⟩, hyy⟩ := Option.isSome_iff_exists.mp (hsome.mpr ⟨hline, hheaders⟩)
    obtain ⟨rfl, hsame⟩ := hfields ret r hyy
    refine ⟨r, text, ⟨(0, r), hyy, rfl⟩, (htext hsame).mpr ⟨hparts, hle⟩, fun h chunkName => ?_⟩
    rw [hname, hsame.2.1]
    rw [htype hsame] at h
    exact hchunk h
  · rintro ⟨request, text, ⟨⟨ret, r⟩, hyy, rfl⟩, hconstruct, hchunk⟩
    obtain ⟨rfl, hsame⟩ := hfields ret r hyy
    obtain ⟨hline, hheaders⟩ := hsome.mp (Option.isSome_of_eq_some hyy)
    rw [if_pos (show (0 : Int) = success from rfl)] at hconstruct hchunk
    obtain ⟨hparts, hle⟩ := (htext hsame).mp hconstruct
    refine ⟨hline, hheaders, fun h => ?_, text, hparts, hle⟩
    rw [← hsame.2.1, ← hname r.httpUri []]
    rw [← htype hsame] at h
    exact hchunk h []

/-- All copies fit exactly when the method, the URI, the version, the names and the values are short
enough, and the request does not fill the buffer with bytes that all come back. -/
theorem copiesFit_iff {x : List UInt8} {size : Nat} {parts : Parts} (hx : x.length ≤ maxReqSize)
    (haccepts : Accepts x size parts) : parts.CopiesFit ↔ parts.IsBounded size := by
  have hsize : size ≤ maxReqSize := by
    have hle := (scanHeader_append_of_end haccepts.1 []).1
    omega
  have huri : ∀ {method uri version}, parts.requestLine = some (method, uri, version) →
      parts.request.httpUri = uri := by
    intro method uri version h
    simp [Parts.request, h]
  constructor
  · rintro ⟨hline, hheaders, hchunk, text, htext, hfits⟩
    obtain ⟨⟨method, uri, version⟩, hparts, -⟩ := Option.map_eq_some_iff.mp htext
    obtain ⟨hm, hu, hv⟩ := hline method uri version hparts
    refine ⟨⟨method, uri, version, hparts, by omega, ?_, by omega⟩, fun h hh => ?_, ?_⟩
    · unfold Parts.maxUri
      split
      · rename_i htype
        have h := hchunk htype
        rw [huri hparts] at h
        simp only [chunkNameSize] at h
        omega
      · omega
    · obtain ⟨hname, hvalue⟩ := hheaders h hh
      exact ⟨by omega, by omega⟩
    · by_cases hlt : size < maxReqSize
      · exact Or.inl hlt
      · refine Or.inr fun text' htext' => ?_
        obtain rfl := Option.some.inj (htext.symm.trans htext')
        omega
  · rintro ⟨⟨method, uri, version, hparts, hm, hu, hv⟩, hheaders, hroom⟩
    have hmax : parts.maxUri ≤ 4095 := by
      unfold Parts.maxUri
      split <;> omega
    have htext : parts.text = some (requestText method uri version parts.headers.reverse) := by
      rw [Parts.text, hparts]
      rfl
    refine ⟨fun method' uri' version' h => ?_, fun h hh => ?_, fun htype => ?_, _, htext, ?_⟩
    · obtain ⟨rfl, rfl, rfl⟩ : method = method' ∧ uri = uri' ∧ version = version' := by simpa using hparts.symm.trans h
      exact ⟨by omega, by omega, by omega⟩
    · obtain ⟨hname, hvalue⟩ := hheaders h hh
      exact ⟨by omega, by omega⟩
    · rw [huri hparts, chunkNameSize]
      rw [Parts.maxUri, if_pos htype] at hu
      omega
    · have hle := haccepts.length_text_le htext
      rcases hroom with hlt | hlost
      · omega
      · have hlt := hlost _ htext
        omega

section Example

/-- A request with the given method. -/
def methodRequest (method : List UInt8) : List UInt8 := method ++ bytes " / H\r\na:b\r\n\r\n"

def methodParts (method : List UInt8) : Parts :=
  ⟨some (method, bytes "/", bytes "H"), [(bytes "a", bytes "b")]⟩

theorem copiesFit_iff_short :
    (methodParts (bytes "GET")).CopiesFit ↔ (methodParts (bytes "GET")).IsBounded 16 :=
  copiesFit_iff (x := methodRequest (bytes "GET")) (by decide) ⟨by decide +kernel, by decide +kernel⟩

/-- A method of 50 letters is accepted. -/
theorem long_method_does_not_fit :
    ¬∀ (x : List UInt8) (size : Nat) (parts : Parts), x.length ≤ maxReqSize → Accepts x size parts →
      parts.CopiesFit := by
  intro h
  have hlong : Accepts (methodRequest (List.replicate 50 65)) 63 (methodParts (List.replicate 50 65)) :=
    ⟨by decide +kernel, by decide +kernel⟩
  have hline := (h _ _ _ (by decide) hlong).line _ _ _ rfl
  exact absurd hline.1 (by decide)

end Example

end VideoCDN.Proxy
