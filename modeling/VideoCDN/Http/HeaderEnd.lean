import VideoCDN.Http.Fields
import VideoCDN.Http.HeaderSection
import Mathlib.Algebra.Group.Nat.Even
import Mathlib.Data.List.DropRight

/-!
# Where a header section ends

A byte that does not go on with the match sends the search back to its start, also a CR that could
begin another match. So an empty line is found exactly when the number of CRs directly before it is
even. What is found is then read: the fields `parse` copies have to fit, and `parse_reponse` needs the
number of a `content-length`.
-/

namespace VideoCDN.Http

open CString

def emptyLine : List UInt8 := [13, 10, 13, 10]

/-- The number of CRs at the end of the text. -/
def trailingCrs (xs : List UInt8) : Nat := (xs.rtakeWhile (· = 13)).length

/-- A status other than `NEEDMORE` tells that the bytes contain an empty line, and the position is
behind the first one. -/
def DetectsEnd (xs : List UInt8) (request : Request) : Prop :=
  (request.status ≠ needmore ↔ emptyLine <:+: xs) ∧
    (request.status ≠ needmore → ∃ k, strstr emptyLine xs = some k ∧ request.position = k + emptyLine.length)

/-- The function returns, and what it returns tells where the first empty line ends. -/
def DetectsEndIn (f : List UInt8 → Nat → Option Request) (buffer : List UInt8) (size : Nat) : Prop :=
  ∃ request, f buffer size = some request ∧ DetectsEnd (buffer.take size) request

/-- The first empty line, if there is one, has an even number of CRs directly before it. -/
def HasPlainEnd (xs : List UInt8) : Prop := ∀ k, strstr emptyLine xs = some k → Even (trailingCrs (xs.take k))

/-- The states from which a CR is a mismatch. -/
def ScanState.ExpectsLf (s : ScanState) : Prop := s = .cr ∨ s = .crlfcr

lemma trailingCrs_append_singleton (xs : List UInt8) (b : UInt8) :
    trailingCrs (xs ++ [b]) = if b = 13 then trailingCrs xs + 1 else 0 := by
  unfold trailingCrs
  rw [List.rtakeWhile_concat]
  by_cases hb : b = 13 <;> simp [hb]

/-- A CR takes the search from one kind of state to the other. -/
lemma ScanState.expectsLf_next (s : ScanState) (hs : s ≠ .crlfcrlf) (b : UInt8) :
    (s.next b).ExpectsLf ↔ b = 13 ∧ ¬s.ExpectsLf := by
  by_cases hb : b = 13
  · subst hb
    cases s <;> simp_all [ExpectsLf, ScanState.next]
  · by_cases hlf : b = 10
    · subst hlf
      cases s <;> simp [ExpectsLf, ScanState.next]
    · cases s <;> simp [ExpectsLf, ScanState.next, hb, hlf]

/-- The CRs at the end of what was read tell whether the next one is a mismatch. -/
lemma scanHeader_expectsLf {p : List UInt8} {s : ScanState} {j : Nat} (h : scanHeader .start p 0 = (s, j))
    (hs : s ≠ .crlfcrlf) : s.ExpectsLf ↔ ¬Even (trailingCrs p) := by
  induction p using List.reverseRecOn generalizing s j with
  | nil =>
    rw [scanHeader_nil] at h
    obtain ⟨rfl, -⟩ := Prod.mk.inj h
    simp [ScanState.ExpectsLf, trailingCrs]
  | append_singleton p b ih =>
    obtain ⟨s', i, hscan⟩ : ∃ s' i, scanHeader .start p 0 = (s', i) := ⟨_, _, rfl⟩
    have hs' : s' ≠ .crlfcrlf := by
      rintro rfl
      rw [(scanHeader_append_of_end hscan [b]).2] at h
      exact hs (Prod.mk.inj h).1.symm
    rw [(scanHeader_append_of_ne hscan hs' [b]).2, scanHeader_cons hs', scanHeader_nil] at h
    obtain ⟨rfl, -⟩ := Prod.mk.inj h
    rw [s'.expectsLf_next hs', trailingCrs_append_singleton, ih hscan hs']
    by_cases hb : b = 13
    · simp [hb, Nat.even_add_one]
    · simp [hb]

section Search

variable {xs : List UInt8} {s : ScanState} {i k : Nat}

lemma emptyLine_infix_of_end (h : scanHeader .start xs 0 = (.crlfcrlf, i)) : emptyLine <:+: xs := by
  obtain ⟨p, n, -, hp⟩ := scanHeader_seen h
  have hinfix : emptyLine <:+: xs.take n := ⟨p, [], by rw [List.append_nil]; exact hp.symm⟩
  exact hinfix.trans (List.take_prefix n xs).isInfix

/-- Before the first empty line the search does not end, and it has not just read a line break. -/
lemma scanHeader_before (hk : strstr emptyLine xs = some k) :
    ∃ s, scanHeader .start (xs.take k) 0 = (s, k) ∧ (s = .start ∨ s.ExpectsLf) := by
  obtain ⟨hle, hhere, hfirst⟩ := (strstr_eq_some_iff emptyLine xs k).mp hk
  obtain ⟨s, i, hscan⟩ : ∃ s i, scanHeader .start (xs.take k) 0 = (s, i) := ⟨_, _, rfl⟩
  obtain ⟨post, hpost⟩ := hhere
  have hxs : xs = xs.take k ++ (emptyLine ++ post) := by rw [hpost, List.take_append_drop]
  have hne : s ≠ .crlfcrlf := by
    rintro rfl
    obtain ⟨p, q, hin⟩ := emptyLine_infix_of_end hscan
    have hlen : p.length < k := by
      have h := congrArg List.length hin
      rw [List.length_append, List.length_append, List.length_take, Nat.min_eq_left hle] at h
      simp only [emptyLine, List.length_cons, List.length_nil] at h
      omega
    apply hfirst p.length hlen
    rw [hxs, ← hin, List.append_assoc, List.append_assoc, List.drop_left]
    exact List.prefix_append _ _
  have hi := (scanHeader_append_of_ne hscan hne []).1
  rw [List.length_take, Nat.min_eq_left hle, Nat.zero_add] at hi
  subst hi
  refine ⟨s, hscan, ?_⟩
  cases s with
  | start => exact Or.inl rfl
  | cr => exact Or.inr (Or.inl rfl)
  | crlfcr => exact Or.inr (Or.inr rfl)
  | crlfcrlf => exact absurd rfl hne
  | crlf =>
    -- the two bytes before it would start an empty line, too
    obtain ⟨p, n, hn, hp⟩ := scanHeader_seen hscan
    obtain rfl : i = n := by omega
    rw [List.take_take, Nat.min_self] at hp
    change xs.take i = p ++ [13, 10] at hp
    have hlen : p.length < i := by
      have h := congrArg List.length hp
      rw [List.length_append, List.length_take, Nat.min_eq_left hle] at h
      simp only [List.length_cons, List.length_nil] at h
      omega
    exfalso
    apply hfirst p.length hlen
    rw [hxs, hp, List.append_assoc, List.drop_left]
    exact ⟨[13, 10] ++ post, by simp [emptyLine]⟩

/-- A search that is at its start before an empty line ends behind it; another one has read a line
break there. -/
lemma scanHeader_emptyLine (hs : s = .start ∨ s.ExpectsLf) (post : List UInt8) (i : Nat) :
    scanHeader s (emptyLine ++ post) i =
      scanHeader (if s = .start then .crlfcrlf else .crlf) post (i + emptyLine.length) := by
  rcases hs with rfl | rfl | rfl
  · simp [emptyLine, scanHeader_cons, ScanState.next]
  · simp [emptyLine, scanHeader_cons, ScanState.next]
  · simp [emptyLine, scanHeader_cons, ScanState.next]

/-- The search ends behind the first empty line exactly when an even number of CRs is before it, and
later or not at all otherwise. -/
theorem scanHeader_first (hk : strstr emptyLine xs = some k) :
    scanHeader .start xs 0 = (.crlfcrlf, k + emptyLine.length) ↔ Even (trailingCrs (xs.take k)) := by
  obtain ⟨s, hscan, hs⟩ := scanHeader_before hk
  obtain ⟨hle, ⟨post, hpost⟩, -⟩ := (strstr_eq_some_iff emptyLine xs k).mp hk
  have hne : s ≠ .crlfcrlf := by
    rintro rfl
    rcases hs with h | h | h <;> cases h
  have hxs : xs = xs.take k ++ (emptyLine ++ post) := by rw [hpost, List.take_append_drop]
  have hwhole : scanHeader .start xs 0 =
      scanHeader (if s = .start then .crlfcrlf else .crlf) post (k + emptyLine.length) := by
    rw [hxs, (scanHeader_append_of_ne hscan hne _).2, scanHeader_emptyLine hs]
  have heven := scanHeader_expectsLf hscan hne
  rw [hwhole]
  by_cases hstart : s = .start
  · subst hstart
    rw [if_pos rfl, scanHeader_done]
    refine iff_of_true rfl ?_
    by_contra hodd
    rcases heven.mpr hodd with h | h <;> cases h
  · rw [if_neg hstart]
    refine iff_of_false (fun h => ?_) (heven.mp (hs.resolve_left hstart))
    exact absurd (lt_of_scanHeader h (by decide)) (lt_irrefl _)

end Search

/-! ## What is read of a header section -/

/-- Name and value of a header fit their fields, and a content length fits an `int`. -/
def HeaderCopyFits (h : List UInt8 × List UInt8) : Prop :=
  h.1.length < 4096 ∧ h.2.length < 4096 ∧
    (strcaseeq h.1 (bytes "Content-Length") = true → (atoi h.2).isSome)

def LineCopyFits (line : List UInt8 × List UInt8 × List UInt8) : Prop :=
  line.1.length < 50 ∧ line.2.1.length < 4096 ∧ line.2.2.length < 50

/-- The headers before the empty line or the first syntax error. -/
def headersBeforeError : Nat → List Token → List (List UInt8 × List UInt8)
  | 0, _ => []
  | fuel + 1, ts =>
    match requestHeader ts with
    | none => []
    | some (header, ts) => header :: if ts.head? = some .crlf then [] else headersBeforeError fuel ts

/-- Every string that is read before the empty line or the first syntax error fits. -/
def CopiesBeforeErrorFit (ts : List Token) : Prop :=
  if (ts.head?.bind allowedCharForToken).isSome then
    ∀ line ts', requestLine ts = some (line, ts') →
      LineCopyFits line ∧ ∀ h ∈ headersBeforeError ts'.length ts', HeaderCopyFits h
  else ∀ h ∈ headersBeforeError ts.length (ows ts), HeaderCopyFits h

lemma addHeader_isSome (r : Request) (h : List UInt8 × List UInt8) :
    (addHeader r h.1 h.2).isSome ↔ HeaderCopyFits h := by
  unfold addHeader HeaderCopyFits headerLength
  by_cases hlong : 4096 ≤ h.1.length ∨ 4096 ≤ h.2.length
  · rw [if_pos hlong]
    refine iff_of_false Bool.false_ne_true fun hfits => ?_
    omega
  · rw [if_neg hlong]
    have hname : h.1.length < 4096 := by omega
    have hvalue : h.2.length < 4096 := by omega
    cases hlength : strcaseeq h.1 (bytes "Content-Length") with
    | false => simp [hname, hvalue]
    | true => cases hn : atoi h.2 <;> simp [hname, hvalue]

/-- The actions run through where every header that is read fits. -/
lemma requestHeaders_isSome (fuel : Nat) (ts : List Token) (r : Request) :
    (requestHeaders fuel ts r).isSome ↔ ∀ h ∈ headersBeforeError fuel ts, HeaderCopyFits h := by
  induction fuel generalizing ts r with
  | zero => simp [requestHeaders, headersBeforeError]
  | succ fuel ih =>
    rw [requestHeaders, headersBeforeError]
    cases hheader : requestHeader ts with
    | none => simp
    | some header =>
      obtain ⟨⟨name, value⟩, ts'⟩ := header
      have hadd := addHeader_isSome r (name, value)
      dsimp only at hadd ⊢
      rw [List.forall_mem_cons, ← hadd]
      cases hr : addHeader r name value with
      | none => simp
      | some r' =>
        simp only [Option.bind_eq_bind, Option.bind_some, Option.isSome_some, true_and]
        split
        · simp
        · rename_i hend
          have hhead : ts'.head? ≠ some .crlf := by
            intro h
            obtain ⟨rest, rfl⟩ := List.head?_eq_some_iff.mp h
            exact hend rest rfl
          rw [if_neg hhead, ih]

lemma yyparse_isSome (ts : List Token) (r : Request) : (yyparse ts r).isSome ↔ CopiesBeforeErrorFit ts := by
  unfold yyparse CopiesBeforeErrorFit
  by_cases htoken : (ts.head?.bind allowedCharForToken).isSome
  · rw [if_pos htoken, if_pos htoken]
    cases hline : requestLine ts with
    | none => simp
    | some found =>
      obtain ⟨⟨method, uri, version⟩, ts'⟩ := found
      have hread : (∀ line ts'', some ((method, uri, version), ts') = some (line, ts'') →
          LineCopyFits line ∧ ∀ h ∈ headersBeforeError ts''.length ts'', HeaderCopyFits h) ↔
          LineCopyFits (method, uri, version) ∧ ∀ h ∈ headersBeforeError ts'.length ts', HeaderCopyFits h := by
        constructor
        · exact fun h => h _ _ rfl
        · rintro h line ts'' ⟨⟩
          exact h
      rw [hread]
      unfold setRequestLine LineCopyFits
      dsimp only
      by_cases hfits : method.length < 50 ∧ uri.length < 4096 ∧ version.length < 50
      · rw [if_pos hfits, Option.bind_eq_bind, Option.bind_some, requestHeaders_isSome]
        exact (and_iff_right hfits).symm
      · rw [if_neg hfits]
        exact iff_of_false Bool.false_ne_true fun h => hfits h.1
  · rw [if_neg htoken, if_neg htoken, requestHeaders_isSome]

/-- What `parse` and `parse_reponse` return says where the search ended. -/
lemma parse_end {buffer : List UInt8} {size : Nat} {request : Request}
    (h : parse buffer size = some request ∨ parseReponse buffer size = some request) :
    ∃ s, scanHeader .start (buffer.take size) 0 = (s, request.position) ∧
      (request.status ≠ needmore ↔ s = .crlfcrlf) := by
  have hneed : success ≠ needmore ∧ (400 : Int) ≠ needmore := by decide
  obtain ⟨s, i, hscan⟩ : ∃ s i, scanHeader .start (buffer.take size) 0 = (s, i) := ⟨_, _, rfl⟩
  rcases h with h | h
  · unfold parse at h
    simp only [hscan] at h
    split at h
    · rename_i hs
      obtain ⟨⟨ret, r⟩, hyy, h⟩ := Option.bind_eq_some_iff.mp h
      obtain ⟨hposition, hstatus⟩ := yyparse_frame hyy
      obtain rfl := Option.some.inj h
      dsimp only
      split
      · refine ⟨s, by rw [hscan, hposition]; rfl, iff_of_true ?_ hs⟩
        rw [hstatus]
        exact hneed.1
      · exact ⟨s, by rw [hscan, hposition]; rfl, iff_of_true hneed.2 hs⟩
    · rename_i hs
      obtain rfl := Option.some.inj h
      exact ⟨s, hscan, iff_of_false (fun hstatus => hstatus rfl) hs⟩
  · unfold parseReponse at h
    simp only [hscan] at h
    split at h
    · rename_i hs
      obtain ⟨n, -, h⟩ := Option.bind_eq_some_iff.mp h
      obtain rfl := Option.some.inj h
      exact ⟨s, hscan, iff_of_true hneed.1 hs⟩
    · rename_i hs
      obtain rfl := Option.some.inj h
      exact ⟨s, hscan, iff_of_false (fun hstatus => hstatus rfl) hs⟩

/-- What is returned tells the end exactly when an even number of CRs comes directly before the first
empty line. -/
lemma detectsEnd_iff {buffer : List UInt8} {size : Nat} {request : Request}
    (h : parse buffer size = some request ∨ parseReponse buffer size = some request) :
    DetectsEnd (buffer.take size) request ↔ HasPlainEnd (buffer.take size) := by
  obtain ⟨s, hscan, hstatus⟩ := parse_end h
  unfold DetectsEnd HasPlainEnd
  rw [hstatus]
  cases hfind : strstr emptyLine (buffer.take size) with
  | none =>
    have hno := (strstr_eq_none_iff _ _).mp hfind
    have hs : s ≠ .crlfcrlf := by
      rintro rfl
      exact hno (emptyLine_infix_of_end hscan)
    simp [hno, hs]
  | some k =>
    have hin := (strstr_isSome_iff _ _).mp (Option.isSome_of_eq_some hfind)
    simp only [hin, iff_true, Option.some.injEq, forall_eq', exists_eq_left']
    rw [← scanHeader_first hfind, hscan, Prod.mk.injEq]
    constructor
    · rintro ⟨rfl, hposition⟩
      exact ⟨rfl, hposition rfl⟩
    · rintro ⟨rfl, hposition⟩
      exact ⟨rfl, fun _ => hposition⟩

lemma parse_isSome (buffer : List UInt8) (size : Nat) :
    (parse buffer size).isSome ↔ ∀ i, scanHeader .start (buffer.take size) 0 = (.crlfcrlf, i) →
      CopiesBeforeErrorFit (lex (buffer.take i)) := by
  obtain ⟨s, i, hscan⟩ : ∃ s i, scanHeader .start (buffer.take size) 0 = (s, i) := ⟨_, _, rfl⟩
  unfold parse
  simp only [hscan, Prod.mk.injEq]
  by_cases hs : s = .crlfcrlf
  · cases hyy : yyparse (lex (buffer.take i)) (newRequest i) <;>
      simp [hs, ← yyparse_isSome _ (newRequest i), hyy]
  · simp [hs]

lemma parseReponse_isSome (buffer : List UInt8) (size : Nat) :
    (parseReponse buffer size).isSome ↔ ∀ i, scanHeader .start (buffer.take size) 0 = (.crlfcrlf, i) →
      ∃ n, StatesLength (cstr buffer) n := by
  obtain ⟨s, i, hscan⟩ : ∃ s i, scanHeader .start (buffer.take size) 0 = (s, i) := ⟨_, _, rfl⟩
  unfold parseReponse
  simp only [hscan, Prod.mk.injEq]
  by_cases hs : s = .crlfcrlf
  · cases hlength : contentLength buffer <;> simp [hs, ← contentLength_eq_some_iff, hlength]
  · simp [hs]

/-- A function that reads what the search finds detects the end where the search finds the first empty
line and what is in front of it can be read. -/
lemma detectsEndIn_iff {f : List UInt8 → Nat → Option Request} {buffer : List UInt8} {size : Nat} {Q : Nat → Prop}
    (hf : f = parse ∨ f = parseReponse)
    (hQ : (f buffer size).isSome ↔ ∀ i, scanHeader .start (buffer.take size) 0 = (.crlfcrlf, i) → Q i) :
    DetectsEndIn f buffer size ↔ HasPlainEnd (buffer.take size) ∧
      ∀ k, strstr emptyLine (buffer.take size) = some k → Q (k + emptyLine.length) := by
  have hdetects : ∀ {request}, f buffer size = some request →
      (DetectsEnd (buffer.take size) request ↔ HasPlainEnd (buffer.take size)) := by
    intro request h
    rcases hf with rfl | rfl
    · exact detectsEnd_iff (Or.inl h)
    · exact detectsEnd_iff (Or.inr h)
  have hfound : HasPlainEnd (buffer.take size) →
      ((f buffer size).isSome ↔ ∀ k, strstr emptyLine (buffer.take size) = some k → Q (k + emptyLine.length)) := by
    intro hplain
    rw [hQ]
    constructor
    · exact fun h k hk => h _ ((scanHeader_first hk).mpr (hplain k hk))
    · intro h i hscan
      obtain ⟨k, hk⟩ := Option.isSome_iff_exists.mp ((strstr_isSome_iff _ _).mpr (emptyLine_infix_of_end hscan))
      obtain ⟨-, rfl⟩ := Prod.mk.inj (hscan.symm.trans ((scanHeader_first hk).mpr (hplain k hk)))
      exact h k hk
  constructor
  · rintro ⟨request, hrequest, h⟩
    have hplain := (hdetects hrequest).mp h
    exact ⟨hplain, (hfound hplain).mp (Option.isSome_of_eq_some hrequest)⟩
  · rintro ⟨hplain, h⟩
    obtain ⟨request, hrequest⟩ := Option.isSome_iff_exists.mp ((hfound hplain).mpr h)
    exact ⟨request, hrequest, (hdetects hrequest).mpr hplain⟩

/-- The end of a header section is detected exactly when an even number of CRs comes directly before
the first empty line, and what is in front of it can be read: by `parse` when every string fits, by
`parse_reponse` when the string in the buffer gives a length. -/
theorem detects_end_iff (buffer : List UInt8) (size : Nat) :
    (DetectsEndIn parse buffer size ↔ HasPlainEnd (buffer.take size) ∧
      ∀ k, strstr emptyLine (buffer.take size) = some k →
        CopiesBeforeErrorFit (lex (buffer.take (k + emptyLine.length)))) ∧
    (DetectsEndIn parseReponse buffer size ↔ HasPlainEnd (buffer.take size) ∧
      ∀ k, strstr emptyLine (buffer.take size) = some k → ∃ n, StatesLength (cstr buffer) n) :=
  ⟨detectsEndIn_iff (Or.inl rfl) (parse_isSome buffer size),
    detectsEndIn_iff (Or.inr rfl) (parseReponse_isSome buffer size)⟩

section Example

/-- A CR before the empty line hides it. -/
theorem end_behind_cr_missed :
    ¬∀ (buffer : List UInt8) (size : Nat), size ≤ maxReqSize →
      DetectsEndIn parse buffer size ∧ DetectsEndIn parseReponse buffer size := by
  intro hall
  obtain ⟨⟨request, hrequest, hdetect⟩, -⟩ := hall [13, 13, 10, 13, 10] 5 (by decide)
  obtain rfl : { newRequest 5 with status := needmore } = request := Option.some.inj hrequest
  exact hdetect.1.mpr ⟨[13], [], rfl⟩ rfl

end Example

end VideoCDN.Http
