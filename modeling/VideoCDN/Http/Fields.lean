import VideoCDN.Http.Message

/-!
# The fields of a parsed request

Every field is made of characters that the lexer lets through, so it is a string without NUL,
and a method contains no slash.
-/

namespace VideoCDN.Http

open CString

/-- The values a token can have. -/
def Token.IsValid : Token → Prop
  | .backslash c => c = 47
  | .digit i => isdigit (48 + i) = true
  | .tokenChar c => isTokenChar c = true
  | .separators c => c ∈ Http.separators
  | .sp c => c = 32
  | .ws s => ∀ b ∈ s, isBlank b = true
  | _ => True

lemma lexOne_valid (b : UInt8) (bs : List UInt8) : ∀ t ∈ (lexOne b bs).1, t.IsValid := by
  intro t ht
  unfold lexOne at ht
  dsimp only at ht
  split_ifs at ht with hcrlf hrun hblank hsp hslash hdigit hdot hcolon hsep htoken
  · obtain rfl := Option.some.inj ht
    trivial
  · obtain rfl := Option.some.inj ht
    trivial
  · obtain rfl := Option.some.inj ht
    exact rfl
  · obtain rfl := Option.some.inj ht
    intro c hc
    rcases List.mem_cons.mp hc with rfl | hc
    · exact hblank
    · exact List.mem_takeWhile_imp hc
  · obtain rfl := Option.some.inj ht
    exact hslash
  · obtain rfl := Option.some.inj ht
    have hb : 48 + (b - 48) = b := by rw [UInt8.add_comm, UInt8.sub_add_cancel]
    rw [Token.IsValid, hb]
    exact hdigit
  · obtain rfl := Option.some.inj ht
    trivial
  · obtain rfl := Option.some.inj ht
    trivial
  · obtain rfl := Option.some.inj ht
    exact hsep
  · obtain rfl := Option.some.inj ht
    exact htoken
  · cases ht

/-- What holds of every match holds of every token. -/
lemma lex_all {P : Token → Prop} (h : ∀ b bs, ∀ t ∈ (lexOne b bs).1, P t) (input : List UInt8) :
    ∀ t ∈ lex input, P t := by
  have hfuel : ∀ (fuel : Nat) (input : List UInt8), ∀ t ∈ lexFuel fuel input, P t := by
    intro fuel
    induction fuel with
    | zero => simp [lexFuel]
    | succ fuel ih =>
      intro input t ht
      cases input with
      | nil => cases ht
      | cons b bs =>
        rw [lexFuel, List.mem_append] at ht
        rcases ht with ht | ht
        · exact h b bs t (by simpa using ht)
        · exact ih _ t ht
  exact hfuel _ _

lemma lex_valid (input : List UInt8) : ∀ t ∈ lex input, t.IsValid := by
  apply lex_all
  exact lexOne_valid

lemma allowedCharForToken_valid {t : Token} (ht : t.IsValid) {c : UInt8} (h : allowedCharForToken t = some c) :
    c ≠ 0 ∧ c ≠ 47 := by
  cases t with
  | tokenChar c' =>
    obtain rfl := Option.some.inj h
    have hc : isTokenChar c' = true := ht
    constructor
    · rintro rfl
      exact absurd hc (by decide)
    · rintro rfl
      exact absurd hc (by decide)
  | digit i =>
    obtain rfl := Option.some.inj h
    have hc : isdigit (48 + i) = true := ht
    exact ⟨ne_of_isdigit hc (by decide), ne_of_isdigit hc (by decide)⟩
  | dot =>
    obtain rfl := Option.some.inj h
    decide
  | _ => cases h

lemma allowedCharForText_valid {t : Token} (ht : t.IsValid) {c : UInt8} (h : allowedCharForText t = some c) :
    c ≠ 0 := by
  cases t with
  | separators c' =>
    obtain rfl := Option.some.inj h
    rintro rfl
    exact absurd ht (by unfold Token.IsValid; decide)
  | colon =>
    obtain rfl := Option.some.inj h
    decide
  | backslash c' =>
    obtain rfl := Option.some.inj h
    obtain rfl : c' = 47 := ht
    decide
  | tokenChar c' => exact (allowedCharForToken_valid ht h).1
  | digit i => exact (allowedCharForToken_valid ht h).1
  | dot => exact (allowedCharForToken_valid ht h).1
  | crlf => cases h
  | lws => cases h
  | sp c' => cases h
  | ws s => cases h

lemma blankText_valid (t : Token) (s : List UInt8) (ht : t.IsValid) (h : blankText t = some s) :
    IsString s := by
  cases t with
  | sp c =>
    obtain rfl := Option.some.inj h
    obtain rfl : c = 32 := ht
    decide
  | ws s' =>
    obtain rfl := Option.some.inj h
    intro b hb hzero
    subst hzero
    exact absurd (ht 0 hb) (by decide)
  | _ => cases h

lemma blankText'_valid (t : Token) (s : List UInt8) (ht : t.IsValid) (h : blankText' t = some s) :
    IsString s := by
  cases t with
  | ws s' => exact blankText_valid _ _ ht h
  | _ => cases h

/-- What follows a prefix of the tokens is valid again. -/
def AllValid (ts : List Token) : Prop := ∀ t ∈ ts, t.IsValid

lemma AllValid.tail {t : Token} {ts : List Token} (h : AllValid (t :: ts)) : AllValid ts :=
  fun t' ht' => h t' (List.mem_cons_of_mem t ht')

lemma AllValid.head {t : Token} {ts : List Token} (h : AllValid (t :: ts)) : t.IsValid := h t List.mem_cons_self

lemma ows_valid {ts : List Token} (h : AllValid ts) : AllValid (ows ts) := by
  cases ts with
  | nil => exact h
  | cons t ts =>
    rw [ows]
    split
    · exact h.tail
    · exact h

lemma tokenRest_valid (acc : List UInt8) {ts : List Token} (hts : AllValid ts)
    (hacc : ∀ b ∈ acc, b ≠ 0 ∧ b ≠ 47) :
    (∀ b ∈ (tokenRest acc ts).1, b ≠ 0 ∧ b ≠ 47) ∧ AllValid (tokenRest acc ts).2 := by
  induction ts generalizing acc with
  | nil => exact ⟨hacc, hts⟩
  | cons t ts ih =>
    rw [tokenRest]
    cases hc : allowedCharForToken t with
    | none => exact ⟨hacc, hts⟩
    | some c =>
      refine ih _ hts.tail fun b hb => ?_
      rcases List.mem_append.mp hb with hb | hb
      · exact hacc b hb
      · rw [List.mem_singleton.mp hb]
        exact allowedCharForToken_valid hts.head hc

lemma token_valid {ts ts' : List Token} (hts : AllValid ts) {s : List UInt8} (h : token ts = some (s, ts')) :
    (∀ b ∈ s, b ≠ 0 ∧ b ≠ 47) ∧ AllValid ts' := by
  cases ts with
  | nil => cases h
  | cons t ts =>
    obtain ⟨c, hc, h⟩ := Option.map_eq_some_iff.mp h
    have hrest := tokenRest_valid [c] hts.tail fun b hb => by
      rw [List.mem_singleton.mp hb]
      exact allowedCharForToken_valid hts.head hc
    rwa [h] at hrest

lemma textRest_valid {blank : Token → Option (List UInt8)}
    (hblank : ∀ t s, t.IsValid → blank t = some s → IsString s) (acc : List UInt8)
    {ts : List Token} (hts : AllValid ts) (hacc : IsString acc) :
    IsString (textRest blank acc ts).1 ∧ AllValid (textRest blank acc ts).2 := by
  have hchar : ∀ {t : Token} {c : UInt8}, t.IsValid → allowedCharForText t = some c → IsString [c] := by
    intro t c ht hc b hb
    rw [List.mem_singleton.mp hb]
    exact allowedCharForText_valid ht hc
  induction acc, ts using textRest.induct blank with
  | case1 acc => exact ⟨hacc, hts⟩
  | case2 acc t ts c hc ih =>
    rw [textRest.eq_def]
    simp only [hc]
    exact ih hts.tail (hacc.append (hchar hts.head hc))
  | case3 acc t hc s t' ts' hs c hc' ih =>
    rw [textRest.eq_def]
    simp only [hc, hs, hc']
    exact ih hts.tail.tail ((hacc.append (hblank _ _ hts.head hs)).append (hchar hts.tail.head hc'))
  | case4 acc t hc s t' ts' hs hc' =>
    rw [textRest.eq_def]
    simp only [hc, hs, hc']
    exact ⟨hacc, hts⟩
  | case5 acc t ts hc hno =>
    rw [textRest.eq_def]
    simp only [hc]
    exact ⟨hacc, hts⟩

lemma text_valid {blank : Token → Option (List UInt8)}
    (hblank : ∀ t s, t.IsValid → blank t = some s → IsString s) {ts ts' : List Token}
    (hts : AllValid ts) {s : List UInt8} (h : text blank ts = some (s, ts')) : IsString s ∧ AllValid ts' := by
  cases ts with
  | nil => cases h
  | cons t ts =>
    obtain ⟨c, hc, h⟩ := Option.map_eq_some_iff.mp h
    have hrest := textRest_valid hblank [c] hts.tail fun b hb => by
      rw [List.mem_singleton.mp hb]
      exact allowedCharForText_valid hts.head hc
    rwa [h] at hrest

lemma expectSp_valid {ts ts' : List Token} (hts : AllValid ts) (h : expectSp ts = some ts') : AllValid ts' := by
  unfold expectSp at h
  split at h
  · obtain rfl := Option.some.inj h
    exact hts.tail
  · cases h

lemma expectColon_valid {ts ts' : List Token} (hts : AllValid ts) (h : expectColon ts = some ts') :
    AllValid ts' := by
  unfold expectColon at h
  split at h
  · obtain rfl := Option.some.inj h
    exact hts.tail
  · cases h

lemma expectCrlf_valid {ts ts' : List Token} (hts : AllValid ts) (h : expectCrlf ts = some ts') :
    AllValid ts' := by
  unfold expectCrlf at h
  split at h
  · obtain rfl := Option.some.inj h
    exact hts.tail
  · cases h

lemma requestLine_valid {ts ts' : List Token} (hts : AllValid ts) {method uri version : List UInt8}
    (h : requestLine ts = some ((method, uri, version), ts')) :
    (∀ b ∈ method, b ≠ 0 ∧ b ≠ 47) ∧ IsString uri ∧ IsString version ∧ AllValid ts' := by
  simp only [requestLine, Option.bind_eq_bind, Option.bind_eq_some_iff, Option.pure_def, Option.some.injEq,
    Prod.mk.injEq] at h
  obtain ⟨⟨m, ts₁⟩, hm, ts₂, h₂, ⟨u, ts₃⟩, hu, ts₄, h₄, ⟨v, ts₅⟩, hv, ts₆, h₆, ⟨rfl, rfl, rfl⟩, rfl⟩ := h
  obtain ⟨hmethod, hts⟩ := token_valid hts hm
  obtain ⟨huri, hts⟩ := text_valid blankText'_valid (expectSp_valid hts h₂) hu
  obtain ⟨hversion, hts⟩ := text_valid blankText_valid (expectSp_valid hts h₄) hv
  exact ⟨hmethod, huri, hversion, expectCrlf_valid hts h₆⟩

lemma requestHeader_valid {ts ts' : List Token} (hts : AllValid ts) {name value : List UInt8}
    (h : requestHeader ts = some ((name, value), ts')) : IsString name ∧ IsString value ∧ AllValid ts' := by
  simp only [requestHeader, Option.bind_eq_bind, Option.bind_eq_some_iff, Option.pure_def, Option.some.injEq,
    Prod.mk.injEq] at h
  obtain ⟨⟨n, ts₁⟩, hn, ts₂, h₂, ⟨v, ts₃⟩, hv, ts₄, h₄, ⟨rfl, rfl⟩, rfl⟩ := h
  obtain ⟨hname, hts⟩ := token_valid hts hn
  obtain ⟨hvalue, hts⟩ := text_valid blankText_valid (ows_valid (expectColon_valid (ows_valid hts) h₂)) hv
  exact ⟨fun b hb => (hname b hb).1, hvalue, expectCrlf_valid (ows_valid hts) h₄⟩

/-- The fields of a request are strings, its method has no slash, and its version is set with its
URI. -/
structure Request.IsClean (r : Request) : Prop where
  method : ∀ b ∈ r.httpMethod, b ≠ 0 ∧ b ≠ 47
  uri : IsString r.httpUri
  version : ∀ version, r.httpVersion = some version → IsString version
  versionSet : r.httpUri ≠ [] → r.httpVersion.isSome
  headers : ∀ h ∈ r.headers, IsString h.1 ∧ IsString h.2

lemma newRequest_isClean (position : Nat) : (newRequest position).IsClean :=
  ⟨by simp [newRequest], by simp [newRequest, IsString], by simp [newRequest], by simp [newRequest],
    by simp [newRequest]⟩

lemma addHeader_eq {r r' : Request} {name value : List UInt8} (h : addHeader r name value = some r') :
    ∃ n, r' = { r with
      contentLength := n, headers := (name, value) :: r.headers, headerCount := r.headerCount + 1 } := by
  unfold addHeader at h
  split at h
  · cases h
  · obtain ⟨n, -, h⟩ := Option.bind_eq_some_iff.mp h
    exact ⟨n, (Option.some.inj h).symm⟩

lemma requestHeaders_frame {fuel : Nat} {ts : List Token} {r r' : Request} {ret : Int}
    (h : requestHeaders fuel ts r = some (ret, r')) : ∃ n headers count,
      r' = { r with contentLength := n, headers := headers, headerCount := count } := by
  induction fuel generalizing ts r with
  | zero =>
    obtain ⟨-, rfl⟩ := Prod.mk.inj (Option.some.inj h)
    exact ⟨r.contentLength, r.headers, r.headerCount, rfl⟩
  | succ fuel ih =>
    rw [requestHeaders] at h
    split at h
    · obtain ⟨-, rfl⟩ := Prod.mk.inj (Option.some.inj h)
      exact ⟨r.contentLength, r.headers, r.headerCount, rfl⟩
    · obtain ⟨r₁, hadd, h⟩ := Option.bind_eq_some_iff.mp h
      obtain ⟨n, rfl⟩ := addHeader_eq hadd
      split at h
      · obtain ⟨-, rfl⟩ := Prod.mk.inj (Option.some.inj h)
        exact ⟨n, _, _, rfl⟩
      · obtain ⟨n', headers, count, rfl⟩ := ih h
        exact ⟨n', headers, count, rfl⟩

/-- What holds of every header the grammar reads holds of every header of the request. -/
lemma requestHeaders_forall {P : List UInt8 × List UInt8 → Prop} {Q : List Token → Prop}
    (hstep : ∀ ts header ts', Q ts → requestHeader ts = some (header, ts') → P header ∧ Q ts') {fuel : Nat}
    {ts : List Token} (hts : Q ts) {r r' : Request} {ret : Int} (hr : ∀ h ∈ r.headers, P h)
    (h : requestHeaders fuel ts r = some (ret, r')) : ∀ h ∈ r'.headers, P h := by
  induction fuel generalizing ts r with
  | zero =>
    obtain ⟨-, rfl⟩ := Prod.mk.inj (Option.some.inj h)
    exact hr
  | succ fuel ih =>
    rw [requestHeaders] at h
    split at h
    · obtain ⟨-, rfl⟩ := Prod.mk.inj (Option.some.inj h)
      exact hr
    · rename_i name value ts' hheader
      obtain ⟨hP, hQ⟩ := hstep _ _ _ hts hheader
      obtain ⟨r₁, hadd, h⟩ := Option.bind_eq_some_iff.mp h
      have hr₁ : ∀ h ∈ r₁.headers, P h := by
        obtain ⟨n, rfl⟩ := addHeader_eq hadd
        intro h hh
        rcases List.mem_cons.mp hh with rfl | hh
        · exact hP
        · exact hr h hh
      split at h
      · obtain ⟨-, rfl⟩ := Prod.mk.inj (Option.some.inj h)
        exact hr₁
      · exact ih hQ hr₁ h

lemma requestHeaders_isClean {fuel : Nat} {ts : List Token} (hts : AllValid ts) {r r' : Request} {ret : Int}
    (hr : r.IsClean) (h : requestHeaders fuel ts r = some (ret, r')) : r'.IsClean := by
  have hheaders : ∀ h ∈ r'.headers, IsString h.1 ∧ IsString h.2 := by
    refine requestHeaders_forall (fun ts header ts' hts hheader => ?_) hts hr.headers h
    obtain ⟨hname, hvalue, hts'⟩ := requestHeader_valid hts hheader
    exact ⟨⟨hname, hvalue⟩, hts'⟩
  obtain ⟨n, headers, count, rfl⟩ := requestHeaders_frame h
  exact ⟨hr.method, hr.uri, hr.version, hr.versionSet, hheaders⟩

lemma yyparse_isClean {ts : List Token} (hts : AllValid ts) {r r' : Request} {ret : Int} (hr : r.IsClean)
    (h : yyparse ts r = some (ret, r')) : r'.IsClean := by
  unfold yyparse at h
  split at h
  · split at h
    · obtain ⟨-, rfl⟩ := Prod.mk.inj (Option.some.inj h)
      exact hr
    · rename_i method uri version ts' hline
      obtain ⟨hmethod, huri, hversion, hts'⟩ := requestLine_valid hts hline
      obtain ⟨r₁, hset, h⟩ := Option.bind_eq_some_iff.mp h
      unfold setRequestLine at hset
      split at hset
      · obtain rfl := Option.some.inj hset
        refine requestHeaders_isClean (r := { r with
          httpMethod := method, httpUri := uri, httpVersion := some version }) hts' ?_ h
        refine ⟨hmethod, huri, fun v hv => ?_, fun _ => rfl, hr.headers⟩
        obtain rfl := Option.some.inj hv
        exact hversion
      · cases hset
  · exact requestHeaders_isClean (ows_valid hts) hr h

/-- Whatever the buffer holds, the parsed request is clean. -/
theorem parse_isClean {buffer : List UInt8} {size : Nat} {request : Request}
    (h : parse buffer size = some request) : request.IsClean := by
  unfold parse at h
  obtain ⟨s, i, hscan⟩ : ∃ s i, scanHeader .start (buffer.take size) 0 = (s, i) := ⟨_, _, rfl⟩
  simp only [hscan] at h
  split at h
  · obtain ⟨⟨ret, r⟩, hyy, h⟩ := Option.bind_eq_some_iff.mp h
    have hr := yyparse_isClean (lex_valid _) (newRequest_isClean i) hyy
    obtain rfl := Option.some.inj h
    dsimp only
    split
    · exact hr
    · exact ⟨hr.method, hr.uri, hr.version, hr.versionSet, hr.headers⟩
  · obtain rfl := Option.some.inj h
    have hr := newRequest_isClean i
    exact ⟨hr.method, hr.uri, hr.version, hr.versionSet, hr.headers⟩

lemma yyparse_frame {ts : List Token} {r r' : Request} {ret : Int} (h : yyparse ts r = some (ret, r')) :
    r'.position = r.position ∧ r'.status = r.status := by
  unfold yyparse at h
  split at h
  · split at h
    · obtain ⟨-, rfl⟩ := Prod.mk.inj (Option.some.inj h)
      exact ⟨rfl, rfl⟩
    · obtain ⟨r₁, hset, h⟩ := Option.bind_eq_some_iff.mp h
      unfold setRequestLine at hset
      split at hset
      · obtain rfl := Option.some.inj hset
        obtain ⟨n, headers, count, rfl⟩ := requestHeaders_frame h
        exact ⟨rfl, rfl⟩
      · cases hset
  · obtain ⟨n, headers, count, rfl⟩ := requestHeaders_frame h
    exact ⟨rfl, rfl⟩

lemma parse_position {buf : List UInt8} {size : Nat} {request : Request} (h : parse buf size = some request) :
    request.position = (scanHeader .start (buf.take size) 0).2 := by
  unfold parse at h
  dsimp only at h
  split at h
  · simp only [Option.bind_eq_bind, Option.bind_eq_some_iff, Option.pure_def, Option.some.injEq] at h
    obtain ⟨⟨ret, r⟩, hyy, rfl⟩ := h
    obtain ⟨hposition, -⟩ := yyparse_frame hyy
    split <;> exact hposition
  · obtain rfl := Option.some.inj h
    rfl

lemma bytes_isString : IsString (bytes "\r\n") := by
  decide

/-- So the text of a request is a string. -/
theorem requestText_isString {r : Request} (hr : r.IsClean) {version : List UInt8}
    (hversion : r.httpVersion = some version) {uri : List UInt8} (huri : IsString uri) :
    IsString (requestText r.httpMethod uri version r.headers) := by
  intro b hb
  simp only [requestText, List.mem_append, List.mem_cons, List.mem_flatMap] at hb
  rcases hb with (hb | rfl | hb | rfl | hb | hb) | ⟨h, hh, hb | rfl | hb | hb⟩ | hb
  · exact (hr.method b hb).1
  · decide
  · exact huri b hb
  · decide
  · exact hr.version version hversion b hb
  · exact bytes_isString b hb
  · exact (hr.headers h hh).1 b hb
  · decide
  · exact (hr.headers h hh).2 b hb
  · exact bytes_isString b hb
  · exact bytes_isString b hb

end VideoCDN.Http
