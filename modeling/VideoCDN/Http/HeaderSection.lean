import VideoCDN.Http.Message

/-!
# Header sections

Lines that end in CRLF, with an empty line after them. The search for the end of a header
section stops exactly behind it, whatever follows, and never inside it.
-/

namespace VideoCDN.Http

open CString

def crlf : List UInt8 := [13, 10]

/-- The lines of a header section and the empty line. -/
def headerText (lines : List (List UInt8)) : List UInt8 := lines.flatMap (fun l => l ++ crlf) ++ crlf

/-- A line that is not empty and contains no line break. -/
def IsHeaderLine (l : List UInt8) : Prop := l ≠ [] ∧ ∀ b ∈ l, b ≠ 13 ∧ b ≠ 10

instance (l : List UInt8) : Decidable (IsHeaderLine l) :=
  have := List.decidableBAll (fun b : UInt8 => b ≠ 13 ∧ b ≠ 10) l
  inferInstanceAs (Decidable (l ≠ [] ∧ ∀ b ∈ l, b ≠ 13 ∧ b ≠ 10))

/-- A line that is not empty and contains no CR and no NUL. -/
def IsTextLine (l : List UInt8) : Prop := l ≠ [] ∧ (∀ b ∈ l, b ≠ 13) ∧ IsString l

instance (l : List UInt8) : Decidable (IsTextLine l) :=
  have := List.decidableBAll (fun b : UInt8 => b ≠ 13) l
  inferInstanceAs (Decidable (l ≠ [] ∧ (∀ b ∈ l, b ≠ 13) ∧ IsString l))

/-- A header section of at least one line. -/
def IsHeaderSection (x : List UInt8) : Prop :=
  ∃ lines, lines ≠ [] ∧ (∀ l ∈ lines, IsHeaderLine l) ∧ x = headerText lines

section Scan

variable {s s' : ScanState} {xs ys : List UInt8} {i j : Nat}

@[simp] lemma scanHeader_done (xs : List UInt8) (i : Nat) : scanHeader .crlfcrlf xs i = (.crlfcrlf, i) := by
  cases xs <;> rfl

@[simp] lemma scanHeader_nil (s : ScanState) (i : Nat) : scanHeader s [] i = (s, i) := by
  cases s <;> rfl

lemma scanHeader_cons (hs : s ≠ .crlfcrlf) (b : UInt8) (xs : List UInt8) (i : Nat) :
    scanHeader s (b :: xs) i = scanHeader (s.next b) xs (i + 1) := by
  cases s with
  | crlfcrlf => exact absurd rfl hs
  | start => rfl
  | cr => rfl
  | crlf => rfl
  | crlfcr => rfl

/-- A search that has not ended read all bytes, and goes on from there. -/
lemma scanHeader_append_of_ne (h : scanHeader s xs i = (s', j)) (hs' : s' ≠ .crlfcrlf) (ys : List UInt8) :
    j = i + xs.length ∧ scanHeader s (xs ++ ys) i = scanHeader s' ys j := by
  induction xs generalizing s i with
  | nil =>
    rw [scanHeader_nil] at h
    obtain ⟨rfl, rfl⟩ := Prod.mk.inj h
    exact ⟨rfl, rfl⟩
  | cons b xs ih =>
    have hs : s ≠ .crlfcrlf := by
      rintro rfl
      rw [scanHeader_done] at h
      exact hs' (Prod.mk.inj h).1.symm
    rw [scanHeader_cons hs] at h
    obtain ⟨hj, happend⟩ := ih h
    refine ⟨by rw [hj, List.length_cons]; omega, ?_⟩
    rw [List.cons_append, scanHeader_cons hs, happend]

/-- A search that has ended ends in the same place whatever follows. -/
lemma scanHeader_append_of_end (h : scanHeader s xs i = (.crlfcrlf, j)) (ys : List UInt8) :
    j ≤ i + xs.length ∧ scanHeader s (xs ++ ys) i = (.crlfcrlf, j) := by
  induction xs generalizing s i with
  | nil =>
    rw [scanHeader_nil] at h
    obtain ⟨rfl, rfl⟩ := Prod.mk.inj h
    exact ⟨le_rfl, scanHeader_done _ _⟩
  | cons b xs ih =>
    by_cases hs : s = .crlfcrlf
    · subst hs
      rw [scanHeader_done] at h
      obtain ⟨-, rfl⟩ := Prod.mk.inj h
      exact ⟨by omega, scanHeader_done _ _⟩
    · rw [scanHeader_cons hs] at h
      obtain ⟨hj, happend⟩ := ih h
      refine ⟨by rw [List.length_cons]; omega, ?_⟩
      rw [List.cons_append, scanHeader_cons hs, happend]

/-- The end is not before the start, and behind it when it was not reached yet. -/
lemma lt_of_scanHeader (h : scanHeader s xs i = (.crlfcrlf, j)) (hs : s ≠ .crlfcrlf) : i < j := by
  have hle : ∀ (xs : List UInt8) (s : ScanState) (i : Nat), scanHeader s xs i = (.crlfcrlf, j) → i ≤ j := by
    intro xs
    induction xs with
    | nil =>
      intro s i h
      rw [scanHeader_nil] at h
      exact (Prod.mk.inj h).2.le
    | cons b xs ih =>
      intro s i h
      by_cases hs : s = .crlfcrlf
      · subst hs
        rw [scanHeader_done] at h
        exact (Prod.mk.inj h).2.le
      · rw [scanHeader_cons hs] at h
        exact (Nat.le_succ i).trans (ih _ _ h)
  cases xs with
  | nil =>
    rw [scanHeader_nil] at h
    exact absurd (Prod.mk.inj h).1 hs
  | cons b xs =>
    rw [scanHeader_cons hs] at h
    exact hle _ _ _ h

lemma scanHeader_le (s : ScanState) (xs : List UInt8) (i : Nat) : (scanHeader s xs i).2 ≤ i + xs.length := by
  obtain ⟨s', j, h⟩ : ∃ s' j, scanHeader s xs i = (s', j) := ⟨_, _, rfl⟩
  rw [h]
  by_cases hs' : s' = .crlfcrlf
  · subst hs'
    exact (scanHeader_append_of_end h []).1
  · exact (scanHeader_append_of_ne h hs' []).1.le

end Scan

/-- The bytes a state of the search has seen last. -/
def ScanState.seen : ScanState → List UInt8
  | .start => []
  | .cr => [13]
  | .crlf => [13, 10]
  | .crlfcr => [13, 10, 13]
  | .crlfcrlf => [13, 10, 13, 10]

lemma ScanState.seen_next (s : ScanState) (b : UInt8) : ∃ p, s.seen ++ [b] = p ++ (s.next b).seen := by
  cases s with
  | start =>
    by_cases hb : b = 13
    · exact ⟨[], by simp [next, seen, hb]⟩
    · exact ⟨[b], by simp [next, seen, hb]⟩
  | cr =>
    by_cases hb : b = 10
    · exact ⟨[], by simp [next, seen, hb]⟩
    · exact ⟨[13, b], by simp [next, seen, hb]⟩
  | crlf =>
    by_cases hb : b = 13
    · exact ⟨[], by simp [next, seen, hb]⟩
    · exact ⟨[13, 10, b], by simp [next, seen, hb]⟩
  | crlfcr =>
    by_cases hb : b = 10
    · exact ⟨[], by simp [next, seen, hb]⟩
    · exact ⟨[13, 10, 13, b], by simp [next, seen, hb]⟩
  | crlfcrlf => exact ⟨[13, 10, 13, 10, b], by simp [next, seen]⟩

/-- What the search has read ends in the bytes of its state. -/
lemma scanHeader_seen {s s' : ScanState} {xs : List UInt8} {i j : Nat} (h : scanHeader s xs i = (s', j)) :
    ∃ p n, j = i + n ∧ s.seen ++ xs.take n = p ++ s'.seen := by
  induction xs generalizing s i with
  | nil =>
    rw [scanHeader_nil] at h
    obtain ⟨rfl, rfl⟩ := Prod.mk.inj h
    exact ⟨[], 0, rfl, by simp⟩
  | cons b xs ih =>
    by_cases hs : s = .crlfcrlf
    · subst hs
      rw [scanHeader_done] at h
      obtain ⟨rfl, rfl⟩ := Prod.mk.inj h
      exact ⟨[], 0, rfl, by simp⟩
    · rw [scanHeader_cons hs] at h
      obtain ⟨p, n, hj, hp⟩ := ih h
      obtain ⟨q, hq⟩ := s.seen_next b
      refine ⟨q ++ p, n + 1, by omega, ?_⟩
      rw [List.take_succ_cons, ← List.singleton_append, ← List.append_assoc, hq, List.append_assoc, hp,
        List.append_assoc]

lemma scanHeader_text {l : List UInt8} (hl : ∀ b ∈ l, b ≠ 13) (i : Nat) (ys : List UInt8) :
    scanHeader .start (l ++ ys) i = scanHeader .start ys (i + l.length) := by
  induction l generalizing i with
  | nil => rfl
  | cons b l ih =>
    have hb := hl b (by simp)
    rw [List.cons_append, scanHeader_cons (by decide), ScanState.next, if_neg hb,
      ih (fun c hc => hl c (by simp [hc])), List.length_cons]
    congr 1
    omega

/-- A line that is not empty takes the search from line break to line break. -/
lemma scanHeader_line {l : List UInt8} (hne : l ≠ []) (hl : ∀ b ∈ l, b ≠ 13) {s : ScanState}
    (hs : s = .start ∨ s = .crlf) (i : Nat) (ys : List UInt8) :
    scanHeader s (l ++ crlf ++ ys) i = scanHeader .crlf ys (i + (l ++ crlf).length) := by
  obtain ⟨b, l, rfl⟩ := List.exists_cons_of_ne_nil hne
  have hb := hl b (by simp)
  have hfirst : scanHeader s (b :: (l ++ crlf ++ ys)) i = scanHeader .start (l ++ crlf ++ ys) (i + 1) := by
    rcases hs with rfl | rfl
    · rw [scanHeader_cons (by decide), ScanState.next, if_neg hb]
    · rw [scanHeader_cons (by decide), ScanState.next, if_neg hb]
  rw [List.cons_append, List.cons_append, hfirst, List.append_assoc,
    scanHeader_text fun c hc => hl c (by simp [hc])]
  simp only [crlf, List.cons_append, List.nil_append, scanHeader_cons (s := .start) (by decide),
    scanHeader_cons (s := .cr) (by decide), ScanState.next, if_true, List.length_cons, List.length_append,
    List.length_nil]
  congr 1
  omega

/-- The search for the end of a header section stops exactly behind the text. -/
def EndsSearch (x : List UInt8) : Prop := scanHeader .start x 0 = (.crlfcrlf, x.length)

lemma endsSearch_headerText {lines : List (List UInt8)} (hne : lines ≠ [])
    (hlines : ∀ l ∈ lines, l ≠ [] ∧ ∀ b ∈ l, b ≠ 13) : EndsSearch (headerText lines) := by
  have hrest : ∀ (lines : List (List UInt8)), (∀ l ∈ lines, l ≠ [] ∧ ∀ b ∈ l, b ≠ 13) → ∀ i,
      scanHeader .crlf (headerText lines) i = (.crlfcrlf, i + (headerText lines).length) := by
    intro lines
    induction lines with
    | nil =>
      intro _ i
      simp [headerText, crlf, scanHeader_cons, ScanState.next]
    | cons l lines ih =>
      intro hlines i
      obtain ⟨hl, hcr⟩ := hlines l (by simp)
      have htext : headerText (l :: lines) = l ++ crlf ++ headerText lines := by
        simp [headerText]
      rw [htext, scanHeader_line hl hcr (Or.inr rfl), ih fun m hm => hlines m (by simp [hm])]
      simp [Nat.add_assoc]
  obtain ⟨l, lines, rfl⟩ := List.exists_cons_of_ne_nil hne
  obtain ⟨hl, hcr⟩ := hlines l (by simp)
  have htext : headerText (l :: lines) = l ++ crlf ++ headerText lines := by
    simp [headerText]
  unfold EndsSearch
  rw [htext, scanHeader_line hl hcr (Or.inl rfl), hrest _ fun m hm => hlines m (by simp [hm])]
  simp [Nat.add_assoc]

section Ends

variable {x : List UInt8}

lemma EndsSearch.append (hx : EndsSearch x) (ys : List UInt8) :
    scanHeader .start (x ++ ys) 0 = (.crlfcrlf, x.length) :=
  (scanHeader_append_of_end hx ys).2

/-- The search does not end inside the text; what follows a part of it may end it later. -/
theorem EndsSearch.scan_prefix (hx : EndsSearch x) {pre post : List UInt8} (h : x = pre ++ post)
    (hpost : post ≠ []) (ys : List UInt8) {j : Nat} (hscan : scanHeader .start (pre ++ ys) 0 = (.crlfcrlf, j)) :
    pre.length < j := by
  unfold EndsSearch at hx
  rw [h] at hx
  obtain ⟨s', k, hk⟩ : ∃ s' k, scanHeader .start pre 0 = (s', k) := ⟨_, _, rfl⟩
  by_cases hs' : s' = .crlfcrlf
  · subst hs'
    obtain ⟨hle, happend⟩ := scanHeader_append_of_end hk post
    rw [happend] at hx
    have heq := (Prod.mk.inj hx).2
    have hpos := List.length_pos_of_ne_nil hpost
    rw [List.length_append] at heq
    omega
  · obtain ⟨hk', happend⟩ := scanHeader_append_of_ne hk hs' ys
    rw [happend] at hscan
    have := lt_of_scanHeader hscan hs'
    omega

lemma EndsSearch.length_pos (hx : EndsSearch x) : 0 < x.length := lt_of_scanHeader hx (by decide)

theorem IsHeaderSection.endsSearch (hx : IsHeaderSection x) : EndsSearch x := by
  obtain ⟨lines, hne, hlines, rfl⟩ := hx
  exact endsSearch_headerText hne fun l hl => ⟨(hlines l hl).1, fun b hb => ((hlines l hl).2 b hb).1⟩

end Ends

/-- The number behind the first `content-length: ` of a header section is `n`. -/
def StatesLength (header : List UInt8) (n : Int) : Prop :=
  ∃ i k, strcasestr (bytes "content-length: ") header = some i ∧
    strstr crlf (header.drop (i + 16)) = some k ∧ k < 50 ∧ atoi ((header.drop (i + 16)).take k) = some n

lemma contentLength_eq_some_iff (buffer : List UInt8) (n : Int) :
    contentLength buffer = some n ↔ StatesLength (cstr buffer) n := by
  have hcrlf : bytes "\r\n" = crlf := by decide
  unfold contentLength StatesLength
  simp only [hcrlf, Option.bind_eq_bind, Option.bind_eq_some_iff]
  constructor
  · rintro ⟨i, hi, k, hk, h⟩
    split at h
    · cases h
    · rename_i hlt
      exact ⟨i, k, hi, hk, not_le.mp hlt, h⟩
  · rintro ⟨i, k, hi, hk, hlt, h⟩
    refine ⟨i, hi, k, hk, ?_⟩
    rw [if_neg (not_le.mpr hlt)]
    exact h

lemma StatesLength.append {s : List UInt8} {n : Int} (h : StatesLength s n) (rest : List UInt8) :
    StatesLength (s ++ rest) n ∧ ∀ i k, strcasestr (bytes "content-length: ") (s ++ rest) = some i →
      strstr crlf ((s ++ rest).drop (i + 16)) = some k → i + 16 + k + crlf.length ≤ s.length := by
  obtain ⟨i, k, hi, hk, hlt, hn⟩ := h
  unfold strcasestr at hi
  obtain ⟨hi', hile⟩ := strstr_append_of_eq_some hi (rest.map tolower)
  have hpattern : ((bytes "content-length: ").map tolower).length = 16 := by decide
  rw [hpattern, List.length_map] at hile
  obtain ⟨hk', hkle⟩ := strstr_append_of_eq_some hk rest
  have hdrop : (s ++ rest).drop (i + 16) = s.drop (i + 16) ++ rest := List.drop_append_of_le_length hile
  rw [List.length_drop] at hkle
  have hfind : strcasestr (bytes "content-length: ") (s ++ rest) = some i := by
    rw [strcasestr, List.map_append]
    exact hi'
  constructor
  · refine ⟨i, k, hfind, by rw [hdrop]; exact hk', hlt, ?_⟩
    rw [hdrop, List.take_append_of_le_length (by rw [List.length_drop]; omega)]
    exact hn
  · intro i' k' hi₂ hk₂
    obtain rfl := Option.some.inj (hfind.symm.trans hi₂)
    rw [hdrop, hk'] at hk₂
    obtain rfl := Option.some.inj hk₂
    omega

/-- A number whose line is in the text in front is stated there. -/
lemma StatesLength.of_append {s rest : List UInt8} {n : Int} (h : StatesLength (s ++ rest) n)
    (hinside : ∀ i k, strcasestr (bytes "content-length: ") (s ++ rest) = some i →
      strstr crlf ((s ++ rest).drop (i + 16)) = some k → i + 16 + k + crlf.length ≤ s.length) :
    StatesLength s n := by
  obtain ⟨i, k, hi, hk, hlt, hn⟩ := h
  have hle := hinside i k hi hk
  have hpattern : ((bytes "content-length: ").map tolower).length = 16 := by decide
  have hdrop : (s ++ rest).drop (i + 16) = s.drop (i + 16) ++ rest := List.drop_append_of_le_length (by omega)
  rw [hdrop] at hk hn
  have hlen : (s.drop (i + 16)).length = s.length - (i + 16) := List.length_drop
  refine ⟨i, k, ?_, strstr_of_append hk (by rw [hlen]; omega), hlt, ?_⟩
  · rw [strcasestr, List.map_append] at hi
    apply strstr_of_append hi
    rw [hpattern, List.length_map]
    omega
  · rwa [List.take_append_of_le_length (by omega)] at hn

/-- The number is read from the header section, whatever the buffer holds behind it. -/
lemma contentLength_header {pre : List UInt8} (hpre : IsString pre)
    (hfield : bytes "content-length: " <:+: pre.map tolower) (rest : List UInt8) (n : Int) :
    contentLength (pre ++ crlf ++ rest) = some n ↔ StatesLength (pre ++ crlf) n := by
  have hcstr : cstr (pre ++ crlf ++ rest) = pre ++ crlf ++ cstr rest := cstr_append _ _ (hpre.append (by decide))
  rw [contentLength_eq_some_iff, hcstr]
  constructor
  · intro h
    apply h.of_append
    intro i k hi hk
    -- the field is in front of the last line break, which ends the line of the number at the latest
    obtain ⟨i', hi'⟩ := Option.isSome_iff_exists.mp ((strstr_isSome_iff _ _).mpr hfield)
    obtain ⟨hfirst, hle⟩ := strstr_append_of_eq_some hi' ((crlf ++ cstr rest).map tolower)
    rw [List.length_map] at hle
    rw [List.append_assoc, strcasestr, List.map_append] at hi
    have hlower : (bytes "content-length: ").map tolower = bytes "content-length: " := by decide
    rw [hlower, hfirst] at hi
    obtain rfl := Option.some.inj hi
    have hlen : (bytes "content-length: ").length = 16 := by decide
    rw [hlen] at hle
    obtain ⟨k', hk'⟩ : ∃ k', strstr crlf (pre.drop (i' + 16) ++ crlf) = some k' :=
      Option.isSome_iff_exists.mp ((strstr_isSome_iff _ _).mpr (List.suffix_append _ _).isInfix)
    obtain ⟨hline, hklen⟩ := strstr_append_of_eq_some hk' (cstr rest)
    rw [List.append_assoc, List.drop_append_of_le_length hle, ← List.append_assoc, hline] at hk
    obtain rfl := Option.some.inj hk
    rw [List.length_append, List.length_drop] at hklen
    rw [List.length_append]
    omega
  · exact fun h => (h.append _).1

/-- The header section of a response that says something about its length. -/
structure IsResponseHeader (header : List UInt8) : Prop where
  endsSearch : EndsSearch header
  field : ∃ pre, header = pre ++ crlf ∧ IsString pre ∧ bytes "content-length: " <:+: pre.map tolower

namespace IsResponseHeader

variable {header : List UInt8}

lemma isString (hheader : IsResponseHeader header) : IsString header := by
  obtain ⟨pre, rfl, hpre, -⟩ := hheader.field
  exact hpre.append (by decide)

lemma contentLength_iff (hheader : IsResponseHeader header) (rest : List UInt8) (n : Int) :
    contentLength (header ++ rest) = some n ↔ StatesLength header n := by
  obtain ⟨pre, rfl, hpre, hfield⟩ := hheader.field
  exact contentLength_header hpre hfield rest n

lemma statesLength_unique (hheader : IsResponseHeader header) {n m : Int} (hn : StatesLength header n)
    (hm : StatesLength header m) : n = m := by
  have hn' := (hheader.contentLength_iff [] n).mpr hn
  rw [(hheader.contentLength_iff [] m).mpr hm] at hn'
  exact (Option.some.inj hn').symm

end IsResponseHeader

/-- Lines, one of which contains the text. -/
lemma isResponseHeader_headerText {lines : List (List UInt8)}
    (hlines : ∀ l ∈ lines, IsTextLine l) {line : List UInt8} (hline : line ∈ lines)
    (hfield : bytes "content-length: " <:+: line.map tolower) : IsResponseHeader (headerText lines) := by
  refine ⟨endsSearch_headerText (List.ne_nil_of_mem hline) fun l hl => ⟨(hlines l hl).1, (hlines l hl).2.1⟩,
    lines.flatMap fun l => l ++ crlf, rfl, fun b hb => ?_, ?_⟩
  · obtain ⟨l, hl, hb⟩ := List.mem_flatMap.mp hb
    rcases List.mem_append.mp hb with hb | hb
    · exact (hlines l hl).2.2 b hb
    · exact ne_of_mem_of_not_mem hb (by decide)
  · apply hfield.trans
    apply List.IsInfix.map
    obtain ⟨before, after, rfl⟩ := List.append_of_mem hline
    exact ⟨before.flatMap fun l => l ++ crlf, crlf ++ after.flatMap fun l => l ++ crlf, by simp⟩

/-! ## Responses -/

/-- A response: the lines of its header section, one of which gives the length of its body. -/
structure Response where
  lines : List (List UInt8)
  body : List UInt8
  isLine : ∀ l ∈ lines, IsHeaderLine l ∧ IsString l
  lengthLine : bytes "Content-Length: " ++ decimal body.length ∈ lines
  body_ne : body ≠ []
  fits : (headerText lines).length < maxReqSize

def Response.header (x : Response) : List UInt8 := headerText x.lines

/-- The bytes of the response. -/
def Response.text (x : Response) : List UInt8 := x.header ++ x.body

lemma Response.isResponseHeader (x : Response) : IsResponseHeader x.header := by
  apply isResponseHeader_headerText _ x.lengthLine
  · have hname : bytes "content-length: " = (bytes "Content-Length: ").map tolower := by decide
    rw [hname]
    exact (List.prefix_append _ _).isInfix.map tolower
  · intro l hl
    obtain ⟨⟨hne, hbreak⟩, hstring⟩ := x.isLine l hl
    exact ⟨hne, fun b hb => (hbreak b hb).1, hstring⟩

end VideoCDN.Http
