import VideoCDN.Http.HeaderSection
import VideoCDN.Http.LineTokens

/-!
# What a forwarded request says

The constructed request is read as the request is. A byte the lexer does not know is lost, and the
headers come out in the opposite order.
-/

namespace VideoCDN.Http

open CString

/-! ## The fields of a line -/

lemma IsName.isValue {s : List UInt8} (hs : IsName s) : IsValue s :=
  ⟨hs.1, fun b hb => (hs.2 b hb).1, fun b hb => (hs.2 b (List.mem_of_mem_head? hb)).2.1,
    fun b hb => (hs.2 b (List.mem_of_mem_getLast? hb)).2.1⟩

lemma dropWhile_blanks {a s : List UInt8} (ha : ∀ b ∈ a, isBlank b = true) (hs : ∀ b ∈ s.head?, isBlank b = false) :
    (a ++ s).dropWhile isBlank = s := by
  rw [List.dropWhile_append_of_pos ha]
  cases s with
  | nil => rfl
  | cons c s =>
    apply List.dropWhile_cons_of_neg
    rw [hs c rfl]
    decide

lemma trim_spec {a s b : List UInt8} (hs : IsValue s) (ha : ∀ c ∈ a, isBlank c = true)
    (hb : ∀ c ∈ b, isBlank c = true) : trim (a ++ (s ++ b)) = s := by
  have hhead : ∀ c ∈ (s ++ b).head?, isBlank c = false := by
    intro c hc
    rw [List.head?_append_of_ne_nil _ hs.ne_nil] at hc
    exact hs.head c hc
  rw [trim, dropWhile_blanks ha hhead, List.rdropWhile, List.reverse_append, dropWhile_blanks, List.reverse_reverse]
  · intro c hc
    exact hb c (List.mem_reverse.mp hc)
  · intro c hc
    rw [List.head?_reverse] at hc
    exact hs.last c hc

lemma readField_spec {line name value : List UInt8} (h : IsFieldLine line name value) (hname : IsName name)
    (hvalue : IsValue value) : readField line = (name, value) := by
  obtain ⟨b₁, b₂, b₃, hblanks, rfl⟩ := h
  have hb₁ : ∀ b ∈ b₁, isBlank b = true := fun b hb => hblanks b (List.mem_append_left _ hb)
  have hb₂ : ∀ b ∈ b₂, isBlank b = true := fun b hb =>
    hblanks b (List.mem_append_right _ (List.mem_append_left _ hb))
  have hb₃ : ∀ b ∈ b₃, isBlank b = true := fun b hb =>
    hblanks b (List.mem_append_right _ (List.mem_append_right _ hb))
  have hcolon : ∀ b ∈ name ++ b₁, decide (b ≠ 58) = true := by
    intro b hb
    apply decide_eq_true
    rcases List.mem_append.mp hb with hb | hb
    · exact (hname.2 b hb).2.2
    · rintro rfl
      exact absurd (hb₁ _ hb) (by decide)
  have htrim := trim_spec (a := []) hname.isValue (fun c hc => absurd hc List.not_mem_nil) hb₁
  rw [readField, ← List.append_assoc, List.takeWhile_append_of_pos hcolon, List.dropWhile_append_of_pos hcolon]
  simp only [List.takeWhile_cons, List.dropWhile_cons, ne_eq, not_true_eq_false, decide_false, Bool.false_eq_true,
    if_false, List.append_nil, List.tail_cons, trim_spec hvalue hb₂ hb₃]
  rw [← List.nil_append (name ++ b₁), htrim]

/-- A name and a value as the grammar reads them. -/
def IsField (h : List UInt8 × List UInt8) : Prop := IsName h.1 ∧ IsValue h.2

lemma requestHeaders_fields {fuel : Nat} {ts : List Token} (hts : AllLexed ts) {r r' : Request} {ret : Int}
    (hr : ∀ h ∈ r.headers, IsField h) (h : requestHeaders fuel ts r = some (ret, r')) :
    ∀ h ∈ r'.headers, IsField h := by
  refine requestHeaders_forall (fun ts header ts' hts hheader => ?_) hts hr h
  obtain ⟨⟨A, line, rfl, -, -⟩, hfield⟩ := requestHeader_spec hts hheader
  exact ⟨hfield, hts.right.tail⟩

lemma headLines_eq_nil {x : List UInt8} (hx : IsPrintable x) {ts : List Token} (h : lex x = .crlf :: ts) :
    headLines [] x = [] :=
  (first_line (A := []) hx h spells_nil).1 rfl

lemma IsPrintable.tail {x bs line : List UInt8} (hx : IsPrintable x) (h : headLines [] x = line :: headLines [] bs) :
    IsPrintable bs := by
  intro l hl
  apply hx
  rw [h]
  exact List.mem_cons_of_mem line hl

/-- Printable lines are the fields of the parsed request, the last line first. -/
lemma requestHeaders_lines {fuel : Nat} {x : List UInt8} (hx : IsPrintable x) {r r' : Request}
    (h : requestHeaders fuel (lex x) r = some (0, r')) :
    r'.headers = ((headLines [] x).map readField).reverse ++ r.headers := by
  induction fuel generalizing x r with
  | zero => cases h
  | succ fuel ih =>
    rw [requestHeaders] at h
    split at h
    · cases h
    · rename_i name value ts' hheader
      obtain ⟨⟨A, line, hlex, hA, hline⟩, hname, hvalue⟩ := requestHeader_spec (lex_lexed x) hheader
      have hne : line ≠ [] := by
        obtain ⟨b₁, b₂, b₃, -, rfl⟩ := hline
        exact List.append_ne_nil_of_left_ne_nil hname.1 _
      obtain ⟨bs, rfl, hlines⟩ := (first_line hx hlex hA).2 hne
      have hbs := hx.tail hlines
      obtain ⟨r₁, hadd, h⟩ := Option.bind_eq_some_iff.mp h
      obtain ⟨n, rfl⟩ := addHeader_eq hadd
      rw [hlines, List.map_cons, readField_spec hline hname hvalue, List.reverse_cons, List.append_assoc,
        List.singleton_append]
      split at h
      · rename_i hend
        obtain ⟨-, rfl⟩ := Prod.mk.inj (Option.some.inj h)
        rw [headLines_eq_nil hbs hend]
        rfl
      · exact ih hbs h

/-! ## The constructed request -/

lemma noBreak_of_printable {l : List UInt8} (hl : ∀ b ∈ l, isPrintable b = true) : NoBreak l := by
  apply noBreak_of_notMem
  intro h
  exact absurd (hl 13 h) (by decide)

lemma IsFieldLine.of_colon (name value : List UInt8) : IsFieldLine (name ++ 58 :: value) name value :=
  ⟨[], [], [], fun b hb => absurd hb List.not_mem_nil, by simp⟩

lemma printable_fieldLine {h : List UInt8 × List UInt8} (hh : IsField h) :
    ∀ b ∈ h.1 ++ 58 :: h.2, isPrintable b = true := by
  intro b hb
  rcases List.mem_append.mp hb with hb | hb
  · exact (hh.1.2 b hb).1
  · rcases List.mem_cons.mp hb with rfl | hb
    · decide
    · exact hh.2.printable b hb

lemma headLines_headers {headers : List (List UInt8 × List UInt8)} (hheaders : ∀ h ∈ headers, IsField h) :
    (headLines [] (headers.flatMap (fun h => h.1 ++ 58 :: (h.2 ++ bytes "\r\n")) ++ bytes "\r\n")).map readField =
      headers := by
  have hcrlf : bytes "\r\n" = [13, 10] := by decide
  rw [hcrlf]
  induction headers with
  | nil => rfl
  | cons h headers ih =>
    have hh := hheaders h List.mem_cons_self
    have hne : h.1 ++ 58 :: h.2 ≠ [] := by simp
    have hassoc : ∀ rest : List UInt8, (h.1 ++ 58 :: (h.2 ++ [13, 10])) ++ rest =
        h.1 ++ 58 :: h.2 ++ 13 :: 10 :: rest := by
      intro rest
      simp
    rw [List.flatMap_cons, List.append_assoc, hassoc,
      headLines_of_ne_nil (noBreak_of_printable (printable_fieldLine hh)) hne, List.map_cons,
      readField_spec (IsFieldLine.of_colon _ _) hh.1 hh.2, ih fun g hg => hheaders g (List.mem_cons_of_mem h hg)]

lemma printable_requestLine {method uri version : List UInt8} (hmethod : IsName method) (huri : IsValue uri)
    (hversion : IsValue version) : ∀ b ∈ method ++ 32 :: (uri ++ 32 :: version), isPrintable b = true := by
  intro b hb
  simp only [List.mem_append, List.mem_cons] at hb
  rcases hb with hb | rfl | hb | rfl | hb
  · exact (hmethod.2 b hb).1
  · decide
  · exact huri.printable b hb
  · decide
  · exact hversion.printable b hb

lemma readRequest_requestText {method uri version : List UInt8} {headers : List (List UInt8 × List UInt8)}
    (hmethod : IsName method) (huri : IsValue uri) (hversion : IsValue version)
    (hheaders : ∀ h ∈ headers, IsField h) :
    readRequest (requestText method uri version headers) =
      ⟨readRequestLine (method ++ 32 :: (uri ++ 32 :: version)), headers⟩ := by
  have hcrlf : bytes "\r\n" = [13, 10] := by decide
  have hline := printable_requestLine hmethod huri hversion
  have hne : method ++ 32 :: (uri ++ 32 :: version) ≠ [] := by simp
  have hheaders' := headLines_headers hheaders
  have htext : requestText method uri version headers = method ++ 32 :: (uri ++ 32 :: version) ++ 13 :: 10 ::
      (headers.flatMap (fun h => h.1 ++ 58 :: (h.2 ++ bytes "\r\n")) ++ bytes "\r\n") := by
    rw [requestText]
    simp [hcrlf]
  rw [htext, readRequest, headLines_of_ne_nil (noBreak_of_printable hline) hne, List.headD_cons, List.tail_cons,
    hheaders']

/-! ## The accepted request -/

lemma parse_success {x : List UInt8} {request : Request} (h : parse x x.length = some request)
    (hstatus : request.status = success) :
    ∃ p i, x.take i = p ++ [13, 10, 13, 10] ∧ yyparse (lex (x.take i)) (newRequest i) = some (0, request) := by
  unfold parse at h
  rw [List.take_length] at h
  obtain ⟨s, i, hscan⟩ : ∃ s i, scanHeader .start x 0 = (s, i) := ⟨_, _, rfl⟩
  simp only [hscan] at h
  split at h
  · rename_i hs
    subst hs
    obtain ⟨p, n, hn, hp⟩ := scanHeader_seen hscan
    obtain rfl : i = n := by omega
    obtain ⟨⟨ret, r⟩, hyy, h⟩ := Option.bind_eq_some_iff.mp h
    obtain rfl := Option.some.inj h
    dsimp only at hstatus
    split at hstatus
    · rename_i hret
      have hret' : ret = 0 := hret
      subst hret'
      exact ⟨p, i, hp, hyy⟩
    · have h400 : (400 : Int) ≠ success := by decide
      exact absurd hstatus h400
  · obtain rfl := Option.some.inj h
    have hneed : needmore ≠ success := by decide
    exact absurd hstatus hneed

/-- What is known of an accepted request with a request line. -/
structure Accepted (x method uri version : List UInt8) (request : Request) : Prop where
  isName : IsName method
  isValue : IsValue uri ∧ IsValue version
  isField : ∀ h ∈ request.headers, IsField h
  requestLine : request.httpMethod = method ∧ request.httpUri = uri ∧ request.httpVersion = some version
  lines : IsPrintable x → ∃ fields, headLines [] x = (method ++ 32 :: (uri ++ 32 :: version)) :: fields ∧
    request.headers = (fields.map readField).reverse

lemma yyparse_accepted {x : List UInt8} {i : Nat} {request : Request} {version : List UInt8}
    (h : yyparse (lex x) (newRequest i) = some (0, request)) (hversion : request.httpVersion = some version) :
    ∃ method uri, Accepted x method uri version request := by
  unfold yyparse at h
  split at h
  · split at h
    · cases h
    · rename_i method uri version' ts' hline
      obtain ⟨⟨A, hlex, hA⟩, hmethod, huri, hversion'⟩ := requestLine_spec (lex_lexed x) hline
      obtain ⟨r₁, hset, h⟩ := Option.bind_eq_some_iff.mp h
      unfold setRequestLine at hset
      split at hset
      · obtain rfl := Option.some.inj hset
        have hlexed : AllLexed (A ++ .crlf :: ts') := by
          rw [← hlex]
          exact lex_lexed x
        have hfields := requestHeaders_fields hlexed.right.tail (fun h hh => absurd hh List.not_mem_nil) h
        have hrequest : request.httpMethod = method ∧ request.httpUri = uri ∧
            request.httpVersion = some version' := by
          obtain ⟨n, headers, count, rfl⟩ := requestHeaders_frame h
          exact ⟨rfl, rfl, rfl⟩
        obtain rfl : version' = version := Option.some.inj (hrequest.2.2.symm.trans hversion)
        refine ⟨method, uri, hmethod, ⟨huri, hversion'⟩, hfields, hrequest, fun hx => ?_⟩
        obtain ⟨bs, rfl, hlines⟩ := (first_line hx hlex hA).2 (by simp)
        refine ⟨headLines [] bs, hlines, ?_⟩
        rw [requestHeaders_lines (hx.tail hlines) h]
        exact List.append_nil _
      · cases hset
  · obtain ⟨n, headers, count, rfl⟩ := requestHeaders_frame h
    cases hversion

/-! ## Fidelity -/

/-- A request that reads like an accepted one is printable. -/
lemma isPrintable_of_reading {x line : List UInt8} {headers : List (List UInt8 × List UInt8)}
    (hline : ∀ b ∈ line, isPrintable b = true) (hheaders : ∀ h ∈ headers, IsField h)
    (h : readRequest x = ⟨readRequestLine line, headers⟩) : IsPrintable x := by
  intro l hl b hb
  cases hx : headLines [] x with
  | nil =>
    rw [hx] at hl
    cases hl
  | cons first rest =>
    rw [readRequest, hx, List.headD_cons, List.tail_cons] at h
    obtain ⟨hfirst, hrest⟩ := Reading.mk.inj h
    rw [hx] at hl
    rcases List.mem_cons.mp hl with rfl | hl
    · rcases mem_requestLine hb with rfl | hb
      · decide
      · rw [hfirst] at hb
        exact hline b (mem_of_readRequestLine hb)
    · have hfield : IsField (readField l) := by
        apply hheaders
        rw [← hrest]
        exact List.mem_map_of_mem hl
      rcases mem_field hb with rfl | hb | hb | hb
      · decide
      · exact isPrintable_of_isBlank hb
      · exact (hfield.1.2 b hb).1
      · exact hfield.2.printable b hb

namespace Accepted

variable {x method uri version : List UInt8} {request : Request}

lemma readRequest_eq (h : Accepted x method uri version request) (hx : IsPrintable x) :
    readRequest x = ⟨readRequestLine (method ++ 32 :: (uri ++ 32 :: version)), request.headers.reverse⟩ := by
  obtain ⟨fields, hlines, hheaders⟩ := h.lines hx
  rw [readRequest, hlines, List.headD_cons, List.tail_cons, hheaders, List.reverse_reverse]

lemma reads_iff (h : Accepted x method uri version request) :
    readRequest (requestText method uri version request.headers) = readRequest x ↔
      IsPrintable x ∧ (readRequest x).fields.reverse = (readRequest x).fields := by
  rw [readRequest_requestText h.isName h.isValue.1 h.isValue.2 h.isField]
  constructor
  · intro hreading
    have hline := printable_requestLine h.isName h.isValue.1 h.isValue.2
    have hprintable := isPrintable_of_reading hline h.isField hreading.symm
    refine ⟨hprintable, ?_⟩
    have hsame := hreading.trans (h.readRequest_eq hprintable)
    rw [h.readRequest_eq hprintable, List.reverse_reverse]
    exact congrArg Reading.fields hsame
  · rintro ⟨hprintable, hreverse⟩
    rw [h.readRequest_eq hprintable] at hreverse ⊢
    rw [List.reverse_reverse] at hreverse
    exact congrArg (Reading.mk _) hreverse

end Accepted

/-- The constructed request says what the request says exactly when the lexer knows all bytes of its
lines and its fields are the same in the opposite order. -/
theorem forwarding_fidelity_iff {x y : List UInt8} {request : Request}
    (hparse : parse x x.length = some request) (hstatus : request.status = success)
    (hy : constructHttpReq request = some y) :
    readRequest y = readRequest x ↔
      IsPrintable x ∧ (readRequest x).fields.reverse = (readRequest x).fields := by
  obtain ⟨p, i, hp, hyy⟩ := parse_success hparse hstatus
  have hlines : headLines [] x = headLines [] (x.take i) := by
    have hempty := headLines_append p (x.drop i) []
    rwa [← hp, List.take_append_drop] at hempty
  obtain ⟨version, hversion, rfl, -⟩ := constructHttpReq_eq_some_iff.mp hy
  obtain ⟨method, uri, haccepted⟩ := yyparse_accepted hyy hversion
  obtain ⟨rfl, rfl, -⟩ := haccepted.requestLine
  have hiff := haccepted.reads_iff
  unfold IsPrintable at hiff ⊢
  rw [readRequest, readRequest] at hiff ⊢
  rwa [hlines]

/-- A page request with one header is forwarded as it is. -/
theorem forwarding_fidelity_iff_page :
    readRequest (bytes "GET /a.html HTTP/1.1\r\nHost:b\r\n\r\n") =
      readRequest (bytes "GET /a.html HTTP/1.1\r\nHost: b\r\n\r\n") := by
  let x := bytes "GET /a.html HTTP/1.1\r\nHost: b\r\n\r\n"
  have hparse : parse x x.length = some ⟨bytes "GET", bytes "/a.html", some (bytes "HTTP/1.1"),
      [(bytes "Host", bytes "b")], 1, 0, success, 33⟩ := by decide +kernel
  exact (forwarding_fidelity_iff hparse rfl (by decide +kernel)).mpr ⟨by decide +kernel, by decide +kernel⟩

/-- Two headers are forwarded in the opposite order. -/
theorem two_headers_reversed :
    (parse (bytes "GET / HTTP/1.1\r\nA: 1\r\nB: 2\r\n\r\n") 30).bind constructHttpReq =
        some (bytes "GET / HTTP/1.1\r\nB:2\r\nA:1\r\n\r\n") ∧
      (parse (bytes "GET / HTTP/1.1\r\nA: 1\r\nB: 2\r\n\r\n") 30).map Request.status = some success ∧
      readRequest (bytes "GET / HTTP/1.1\r\nB:2\r\nA:1\r\n\r\n") ≠
        readRequest (bytes "GET / HTTP/1.1\r\nA: 1\r\nB: 2\r\n\r\n") := by
  refine ⟨?_, ?_, ?_⟩
  · decide +kernel
  · decide +kernel
  · decide +kernel

end VideoCDN.Http
