import VideoCDN.Proxy.ChunkRequest

/-!
# Where the bitrate of a chunk is written

`replace_uri_bitrate` goes back from the first `Seg` of the request to the slash in front of it. Only
when that `Seg` is the one behind the digits does it change them.
-/

namespace VideoCDN.Proxy

open CString Buffer Http

/-- `<digits>Seg<s>-Frag<f>` behind the directories, which are empty or end with a slash. -/
def segmentUri (dir digits s f : List UInt8) : List UInt8 :=
  dir ++ (digits ++ (bytes "Seg" ++ s ++ bytes "-Frag" ++ f))

/-- The text of the request with other digits in its URI. -/
def segmentText (request : Request) (dir digits s f : List UInt8) : List UInt8 :=
  requestText request.httpMethod (segmentUri dir digits s f) (request.httpVersion.getD []) request.headers

/-- In the text of the request exactly the digits are changed. -/
def RewritesDigits (request : Request) (dir s f text : List UInt8) (bitrate : Int) : Prop :=
  ∃ ret buf, replaceUriBitrate maxReqSize text bitrate = some (ret, buf) ∧
    cstr buf = segmentText request dir (decimalInt bitrate) s f

/-- The digits are the bitrate's already, and so is what stands between a slash and the first `Seg`. -/
def AlreadySet (front digits : List UInt8) (bitrate : Int) : Prop :=
  digits = decimalInt bitrate ∧
    ∃ pre rest, front = pre ++ 47 :: (decimalInt bitrate ++ (bytes "Seg" ++ rest)) ∧ ¬bytes "Seg" <:+: pre

/-! ## The text of the request -/

/-- The text in front of the digits. -/
def segmentFront (request : Request) (dir : List UInt8) : List UInt8 := request.httpMethod ++ 32 :: dir

lemma segmentText_eq (request : Request) (dir digits s f : List UInt8) :
    segmentText request dir digits s f =
      segmentFront request dir ++ (digits ++ (bytes "Seg" ++ chunkSuffix request s f)) := by
  simp only [segmentText, requestText, segmentUri, segmentFront, chunkSuffix, List.append_assoc, List.cons_append]

lemma constructHttpReq_segment {request : Request} {dir digits s f text : List UInt8}
    (huri : request.httpUri = segmentUri dir digits s f) (h : constructHttpReq request = some text) :
    text = segmentText request dir digits s f ∧ text.length < maxReqSize := by
  obtain ⟨version, hversion, rfl, hfits⟩ := constructHttpReq_eq_some_iff.mp h
  rw [segmentText, hversion, ← huri, Option.getD_some]
  exact ⟨rfl, hfits⟩

lemma segmentText_isString {request : Request} {dir digits s f : List UInt8} (hclean : request.IsClean)
    (huri : request.httpUri = segmentUri dir digits s f) {digits' : List UInt8} (hdigits' : IsString digits') :
    IsString (segmentText request dir digits' s f) := by
  have hne : request.httpUri ≠ [] := by
    rw [huri, segmentUri]
    simp [bytes]
  obtain ⟨version, hversion⟩ := Option.isSome_iff_exists.mp (hclean.versionSet hne)
  have hold : IsString (dir ++ (digits ++ (bytes "Seg" ++ s ++ bytes "-Frag" ++ f))) := by
    rw [← segmentUri, ← huri]
    exact hclean.uri
  have hdir : IsString dir := fun b hb => hold b (List.mem_append_left _ hb)
  have hrest : IsString (bytes "Seg" ++ s ++ bytes "-Frag" ++ f) := fun b hb =>
    hold b (List.mem_append_right _ (List.mem_append_right _ hb))
  rw [segmentText, hversion, Option.getD_some]
  exact requestText_isString hclean hversion (hdir.append (hdigits'.append hrest))

/-! ## The rewriting -/

lemma exists_last_slash {s : List UInt8} (h : 47 ∈ s) : ∃ pre name, s = pre ++ 47 :: name ∧ 47 ∉ name := by
  obtain ⟨name, pre, hs, hname⟩ := List.eq_append_cons_of_mem (List.mem_reverse.mpr h)
  refine ⟨pre.reverse, name.reverse, ?_, fun hmem => hname (List.mem_reverse.mp hmem)⟩
  rw [← List.reverse_reverse s, hs]
  simp

/-- Names in front of the first `Seg` of a text and of one that continues it are the same. -/
lemma name_unique {name name' u v : List UInt8}
    (hname : strstr (bytes "Seg") (name ++ (bytes "Seg" ++ u)) = some name.length)
    (hname' : strstr (bytes "Seg") (name' ++ (bytes "Seg" ++ v)) = some name'.length)
    (h : name ++ (bytes "Seg" ++ u) <+: name' ++ (bytes "Seg" ++ v)) : name = name' := by
  obtain ⟨t, ht⟩ := h
  obtain ⟨hfound, -⟩ := strstr_append_of_eq_some hname t
  rw [ht, hname'] at hfound
  have hlength := Option.some.inj hfound
  have htake := congrArg (List.take name.length) ht
  rwa [List.append_assoc, List.take_left, ← hlength, List.take_left] at htake

/-- The first `Seg` of a text has no slash in front of it, or a name between the nearest one and it. -/
lemma seg_cases {front : List UInt8} (hin : bytes "Seg" <:+: front) :
    (∃ pre post, front = pre ++ bytes "Seg" ++ post ∧ 47 ∉ pre) ∨
      ∃ pre name post, front = pre ++ 47 :: (name ++ (bytes "Seg" ++ post)) ∧ ¬bytes "Seg" <:+: pre ∧ 47 ∉ name ∧
        ∀ t, strstr (bytes "Seg") (name ++ (bytes "Seg" ++ t)) = some name.length := by
  obtain ⟨before, post, rfl, hfirst⟩ := exists_first_occurrence hin
  by_cases hslash : 47 ∈ before
  · obtain ⟨pre, name, rfl, hname⟩ := exists_last_slash hslash
    have hwhole := strstr_append _ _ _ hfirst
    have hpre : ¬bytes "Seg" <:+: pre := by
      intro hin
      obtain ⟨i, hi⟩ := Option.isSome_iff_exists.mp ((strstr_isSome_iff _ _).mpr hin)
      obtain ⟨hfound, hle⟩ := strstr_append_of_eq_some hi (47 :: name ++ bytes "Seg" ++ post)
      have hassoc : pre ++ (47 :: name ++ bytes "Seg" ++ post) = pre ++ 47 :: name ++ bytes "Seg" ++ post := by simp
      rw [hassoc, hwhole] at hfound
      have hlength := Option.some.inj hfound
      simp only [List.length_append, List.length_cons] at hlength
      omega
    have hname' : strstr (bytes "Seg") (name ++ bytes "Seg") = some name.length := by
      have hfound := strstr_of_append hwhole (List.length_append ..).ge
      rw [List.append_assoc, List.cons_append, strstr_skip (by decide) hpre, Option.map_eq_some_iff] at hfound
      obtain ⟨i, hi, hlength⟩ := hfound
      rw [List.length_append, List.length_cons] at hlength
      obtain rfl : i = name.length := by omega
      exact hi
    refine Or.inr ⟨pre, name, post, by simp, hpre, hname, fun t => ?_⟩
    rw [← List.append_assoc]
    exact (strstr_append_of_eq_some hname' t).1
  · exact Or.inl ⟨before, post, rfl, hslash⟩

/-- A `Seg` in front of the digits is changed instead, unless that changes nothing. -/
lemma alreadySet_of_found {front digits rest buf : List UInt8} {ret bitrate : Int} (hin : bytes "Seg" <:+: front)
    (hdigits : 83 ∉ digits) (hstring : IsString (front ++ (digits ++ (bytes "Seg" ++ rest))))
    (hreplace : replaceUriBitrate maxReqSize (front ++ (digits ++ (bytes "Seg" ++ rest))) bitrate = some (ret, buf))
    (hcstr : cstr buf = front ++ (decimalInt bitrate ++ (bytes "Seg" ++ rest))) :
    AlreadySet front digits bitrate := by
  have hbitrate : ∀ t, strstr (bytes "Seg") (decimalInt bitrate ++ (bytes "Seg" ++ t)) =
      some (decimalInt bitrate).length :=
    strstr_append_of_head_notMem (bytes "eg") (notMem_decimalInt bitrate (by decide) (by decide))
  rcases seg_cases hin with ⟨pre, post, rfl, hslash⟩ | ⟨pre, name, post, rfl, hpre, hname, hfirst⟩
  · have hleft : 47 ∉ pre ++ bytes "Seg" := by
      intro h
      rcases List.mem_append.mp h with h | h
      · exact hslash h
      · exact absurd h (by decide)
    rw [List.append_assoc (pre ++ bytes "Seg")] at hstring hreplace
    rw [replaceUriBitrate_method (List.suffix_append pre _).isInfix hleft hstring bitrate] at hreplace
    cases hreplace
  · have hassoc : ∀ t, pre ++ 47 :: (name ++ (bytes "Seg" ++ post)) ++ t =
        pre ++ 47 :: (name ++ (bytes "Seg" ++ (post ++ t))) := by
      intro t
      simp
    rw [hassoc] at hstring hreplace hcstr
    have hseg : strstr (bytes "Seg") (pre ++ 47 :: (name ++ (bytes "Seg" ++
        (post ++ (digits ++ (bytes "Seg" ++ rest)))))) = some (pre ++ 47 :: name).length := by
      rw [strstr_skip (by decide) hpre, hfirst, Option.map_some, List.length_append, List.length_cons,
        Option.some.injEq]
      omega
    obtain ⟨tail, hfound⟩ := replaceUriBitrate_found hseg hname hstring bitrate
    obtain ⟨-, rfl⟩ := Prod.mk.inj (Option.some.inj (hreplace.symm.trans hfound))
    -- the string in the buffer starts the rewritten text, which has the bitrate for the name
    have hstart := (cstr_prefix_self _).trans (List.take_prefix (maxReqSize - 1)
      (pre ++ 47 :: (decimalInt bitrate ++ (bytes "Seg" ++ (post ++ (digits ++ (bytes "Seg" ++ rest)))))))
    rw [← cstr_append_nul _ tail, hcstr, List.prefix_append_right_inj, List.cons_prefix_cons] at hstart
    obtain rfl := name_unique (hfirst _) (hbitrate _) hstart.2
    have hrest := hstart.2
    rw [List.prefix_append_right_inj, List.prefix_append_right_inj, List.prefix_append_right_inj] at hrest
    have hsame := name_unique (hbitrate _) (strstr_append_of_head_notMem (bytes "eg") hdigits _) hrest
    exact ⟨hsame.symm, pre, post, rfl, hpre⟩

/-- The string left in the buffer fits it. -/
lemma length_cstr_replaceUriBitrate {text buf : List UInt8} {ret bitrate : Int} (hfits : text.length < maxReqSize)
    (h : replaceUriBitrate maxReqSize text bitrate = some (ret, buf)) : (cstr buf).length < maxReqSize := by
  unfold replaceUriBitrate at h
  dsimp only at h
  split at h
  · obtain ⟨-, rfl⟩ := Prod.mk.inj (Option.some.inj h)
    exact (cstr_prefix_self text).length_le.trans_lt hfits
  · split at h
    · cases h
    · split at h
      · cases h
      · rename_i hshort
        obtain ⟨-, rfl⟩ := Prod.mk.inj (Option.some.inj h)
        rw [put_zero, List.append_assoc, List.singleton_append, cstr_append_nul]
        exact (cstr_prefix_self _).length_le.trans_lt (not_le.mp hshort)

/-- Behind the nearest slash the rewritten text is left in the buffer, when it fits. -/
lemma cstr_replaceUriBitrate {pre name rest : List UInt8}
    (hseg : strstr (bytes "Seg") (pre ++ 47 :: (name ++ (bytes "Seg" ++ rest))) = some (pre ++ 47 :: name).length)
    (hname : 47 ∉ name) (hstring : IsString (pre ++ 47 :: (name ++ (bytes "Seg" ++ rest)))) {bitrate : Int}
    (hnew : IsString (pre ++ 47 :: (decimalInt bitrate ++ (bytes "Seg" ++ rest))))
    (hroom : (pre ++ 47 :: (decimalInt bitrate ++ (bytes "Seg" ++ rest))).length < maxReqSize) :
    ∃ ret buf, replaceUriBitrate maxReqSize (pre ++ 47 :: (name ++ (bytes "Seg" ++ rest))) bitrate = some (ret, buf) ∧
      cstr buf = pre ++ 47 :: (decimalInt bitrate ++ (bytes "Seg" ++ rest)) := by
  obtain ⟨tail, hfound⟩ := replaceUriBitrate_found hseg hname hstring bitrate
  refine ⟨_, _, hfound, ?_⟩
  rw [List.take_of_length_le (Nat.le_sub_one_of_lt hroom), cstr_append_zero _ _ hnew]

lemma seg_segmentFront_iff (request : Request) (dir : List UInt8) :
    bytes "Seg" <:+: segmentFront request dir ↔ bytes "Seg" <:+: request.httpMethod ∨ bytes "Seg" <:+: dir :=
  infix_append_cons_iff (by decide)

/-- Without directories there is no slash in front of the digits. -/
lemma replaceUriBitrate_no_dir {request : Request} {digits s f : List UInt8} (hclean : request.IsClean)
    (hdigits : ∀ c ∈ digits, isdigit c = true) (hstring : IsString (segmentText request [] digits s f))
    (bitrate : Int) : replaceUriBitrate maxReqSize (segmentText request [] digits s f) bitrate = none := by
  have hassoc : segmentText request [] digits s f =
      request.httpMethod ++ 32 :: digits ++ bytes "Seg" ++ chunkSuffix request s f := by
    rw [segmentText_eq, segmentFront]
    simp only [List.append_assoc, List.cons_append, List.nil_append]
  rw [hassoc] at hstring ⊢
  refine replaceUriBitrate_method (List.suffix_append _ _).isInfix (fun h => ?_) hstring bitrate
  simp only [List.mem_append, List.mem_cons] at h
  rcases h with (h | h | h) | h
  · exact (hclean.method 47 h).2 rfl
  · exact absurd h (by decide)
  · exact notMem_digits hdigits (by decide) h
  · exact absurd h (by decide)

/-- Without a `Seg` in front of them the digits behind the last slash are changed. -/
lemma rewritesDigits_of_notMem {request : Request} {dir digits s f : List UInt8} {bitrate : Int} (hne : dir ≠ [])
    (hdir : ∀ b ∈ dir.getLast?, b = 47) (hmethod : ¬bytes "Seg" <:+: request.httpMethod)
    (hno : ¬bytes "Seg" <:+: dir) (hdigits : ∀ c ∈ digits, isdigit c = true)
    (hstring : IsString (segmentText request dir digits s f))
    (hnew : IsString (segmentText request dir (decimalInt bitrate) s f))
    (hroom : (segmentText request dir (decimalInt bitrate) s f).length < maxReqSize) :
    RewritesDigits request dir s f (segmentText request dir digits s f) bitrate := by
  obtain ⟨d, b, rfl⟩ := (List.eq_nil_or_concat dir).resolve_left hne
  obtain rfl : b = 47 := hdir b (by simp)
  have hassoc : ∀ digits', segmentText request (d.concat 47) digits' s f =
      segmentFront request d ++ 47 :: (digits' ++ (bytes "Seg" ++ chunkSuffix request s f)) := by
    intro digits'
    rw [segmentText_eq, segmentFront, segmentFront]
    simp
  have hfront : ¬bytes "Seg" <:+: segmentFront request d := by
    rw [seg_segmentFront_iff, not_or]
    refine ⟨hmethod, fun hin => hno (hin.trans ?_)⟩
    rw [List.concat_eq_append]
    exact (List.prefix_append d [47]).isInfix
  rw [hassoc] at hstring hnew hroom
  rw [RewritesDigits, hassoc, hassoc]
  have hseg := strstr_seg (chunkSuffix request s f) hfront (notMem_digits hdigits (by decide))
  exact cstr_replaceUriBitrate hseg (notMem_digits hdigits (by decide)) hstring hnew hroom

/-- The number in front of an earlier `Seg` is replaced by itself. -/
lemma rewritesDigits_of_alreadySet {request : Request} {dir digits s f : List UInt8} {bitrate : Int}
    (hset : AlreadySet (segmentFront request dir) digits bitrate)
    (hnew : IsString (segmentText request dir (decimalInt bitrate) s f))
    (hroom : (segmentText request dir (decimalInt bitrate) s f).length < maxReqSize) :
    RewritesDigits request dir s f (segmentText request dir digits s f) bitrate := by
  obtain ⟨rfl, pre, rest, hfront, hpre⟩ := hset
  have hassoc : segmentText request dir (decimalInt bitrate) s f =
      pre ++ 47 :: (decimalInt bitrate ++ (bytes "Seg" ++
        (rest ++ (decimalInt bitrate ++ (bytes "Seg" ++ chunkSuffix request s f))))) := by
    rw [segmentText_eq, hfront]
    simp
  rw [hassoc] at hnew hroom
  rw [RewritesDigits, hassoc]
  have hminus := notMem_decimalInt bitrate (c := 47) (by decide) (by decide)
  have hseg := strstr_seg (rest ++ (decimalInt bitrate ++ (bytes "Seg" ++ chunkSuffix request s f))) hpre
    (notMem_decimalInt bitrate (by decide) (by decide))
  exact cstr_replaceUriBitrate hseg hminus hnew hnew hroom

/-- Exactly the digits are changed when no `Seg` comes before them, or nothing has to be changed, and
the result fits the buffer. -/
theorem chunk_rewrite_iff {buffer : List UInt8} {size : Nat} {request : Request}
    (hparse : parse buffer size = some request) {dir digits s f : List UInt8}
    (huri : request.httpUri = segmentUri dir digits s f) (hdir : ∀ b ∈ dir.getLast?, b = 47)
    (hdigits : ∀ c ∈ digits, isdigit c = true) {text : List UInt8} (htext : constructHttpReq request = some text)
    (bitrate : Int) :
    RewritesDigits request dir s f text bitrate ↔
      (segmentText request dir (decimalInt bitrate) s f).length < maxReqSize ∧
        (dir ≠ [] ∧ ¬bytes "Seg" <:+: request.httpMethod ∧ ¬bytes "Seg" <:+: dir ∨
          AlreadySet (segmentFront request dir) digits bitrate) := by
  have hclean := parse_isClean hparse
  obtain ⟨rfl, hfits⟩ := constructHttpReq_segment huri htext
  have hold : IsString digits := by
    rintro b hb rfl
    exact notMem_digits hdigits (by decide) hb
  have hstring := segmentText_isString hclean huri hold
  have hnew := segmentText_isString hclean huri (isString_decimalInt bitrate)
  constructor
  · rintro ⟨ret, buf, hreplace, hcstr⟩
    refine ⟨hcstr ▸ length_cstr_replaceUriBitrate hfits hreplace, ?_⟩
    by_cases hin : bytes "Seg" <:+: segmentFront request dir
    · rw [segmentText_eq] at hstring hreplace hcstr
      exact Or.inr (alreadySet_of_found hin (notMem_digits hdigits (by decide)) hstring hreplace hcstr)
    · rw [seg_segmentFront_iff, not_or] at hin
      refine Or.inl ⟨?_, hin⟩
      rintro rfl
      rw [replaceUriBitrate_no_dir hclean hdigits hstring] at hreplace
      cases hreplace
  · rintro ⟨hroom, ⟨hne, hmethod, hno⟩ | hset⟩
    · exact rewritesDigits_of_notMem hne hdir hmethod hno hdigits hstring hnew hroom
    · exact rewritesDigits_of_alreadySet hset hnew hroom

theorem chunk_rewrite_iff_500 :
    RewritesDigits chunkRequest (bytes "/v/") (bytes "1") (bytes "1")
      (bytes "GET /v/100Seg1-Frag1 HTTP/1.1\r\nHost:b\r\n\r\n") 500 := by
  have hslash : ∀ b ∈ (bytes "/v/").getLast?, b = 47 := fun b hb => (Option.some.inj hb).symm
  apply (chunk_rewrite_iff parse_chunkData (by decide) hslash isdigit_hundred (by decide +kernel) 500).mpr
  exact ⟨by decide +kernel, Or.inl ⟨by decide, by decide, by decide⟩⟩

section Example

def segmentsData : List UInt8 := bytes "GET /Segments/100Seg1-Frag1 HTTP/1.1\r\nHost: b\r\n\r\n"

def segmentsRequest : Request :=
  ⟨bytes "GET", segmentUri (bytes "/Segments/") (bytes "100") (bytes "1") (bytes "1"), some (bytes "HTTP/1.1"),
    [(bytes "Host", bytes "b")], 1, 0, success, 49⟩

/-- The name of the directory is changed instead of the digits. -/
theorem segment_directory_rewritten :
    ¬∀ (buffer : List UInt8) (size : Nat) (request : Request), parse buffer size = some request →
      request.status = success → checkType request = .chunk → ∀ (dir digits s f : List UInt8),
      request.httpUri = segmentUri dir digits s f → (∀ b ∈ dir.getLast?, b = 47) →
      (∀ c ∈ digits, isdigit c = true) → ∀ text, constructHttpReq request = some text → ∀ bitrate,
      (segmentText request dir (decimalInt bitrate) s f).length < maxReqSize →
      RewritesDigits request dir s f text bitrate := by
  intro h
  have hslash : ∀ b ∈ (bytes "/Segments/").getLast?, b = 47 := fun b hb => (Option.some.inj hb).symm
  obtain ⟨ret, buf, hreplace, hcstr⟩ := h segmentsData segmentsData.length segmentsRequest (by decide +kernel) rfl
    (by decide) (bytes "/Segments/") (bytes "100") (bytes "1") (bytes "1") rfl hslash isdigit_hundred
    (bytes "GET /Segments/100Seg1-Frag1 HTTP/1.1\r\nHost:b\r\n\r\n") (by decide +kernel) 500
    (by decide +kernel)
  have hactual : (replaceUriBitrate maxReqSize (bytes "GET /Segments/100Seg1-Frag1 HTTP/1.1\r\nHost:b\r\n\r\n")
      500).map (fun r => cstr r.2) =
      some (bytes "GET /500Segments/100Seg1-Frag1 HTTP/1.1\r\nHost:b\r\n\r\n") := by decide +kernel
  rw [hreplace, Option.map_some, Option.some.injEq, hcstr] at hactual
  exact absurd hactual (by decide +kernel)

end Example

end VideoCDN.Proxy
