import VideoCDN.Proxy.Adaptation
import VideoCDN.Proxy.Relaying
import VideoCDN.Reference.ReferenceProxy

/-!
# The two proxies

The proxy and the reference proxy read the same bitrates from a plain manifest. They choose by different
bounds, one of them rounds its estimates down, and both write the bitrate into the path of the chunk.
-/

namespace VideoCDN.Reference

open CString Buffer Proxy Greatest FloorAverage Inet

/-! ## The bitrates of a manifest -/

/-- No match starts in text without a `b`. -/
lemma bitrateValues_append {pre : Str} (hpre : 98 ∉ pre) (s : Str) : bitrateValues (pre ++ s) = bitrateValues s := by
  induction pre with
  | nil => rfl
  | cons c pre ih =>
    have hneedle : bytes "bitrate=" = 98 :: bytes "itrate=" := by decide
    have hhere : ¬bytes "bitrate=" <+: c :: (pre ++ s) := by
      rw [hneedle, List.cons_prefix_cons]
      rintro ⟨rfl, -⟩
      exact hpre List.mem_cons_self
    rw [List.cons_append, bitrateValues, if_neg hhere]
    exact ih fun hmem => hpre (List.mem_cons_of_mem c hmem)

/-- No match starts in text without one, up to a byte that no match has. -/
lemma bitrateValues_skip {pre : Str} {c : UInt8} (hc : c ∉ bytes "bitrate=") (hpre : ¬bytes "bitrate=" <:+: pre)
    (post : Str) : bitrateValues (pre ++ c :: post) = bitrateValues post := by
  induction pre with
  | nil =>
    have hhere : ¬bytes "bitrate=" <+: c :: post := by
      intro h
      have hstart : bytes "bitrate=" <+: [] := prefix_of_prefix_append_cons hc h
      exact absurd hstart (by decide)
    rw [List.nil_append, bitrateValues, if_neg hhere]
  | cons c' pre ih =>
    have hhere : ¬bytes "bitrate=" <+: c' :: (pre ++ c :: post) := by
      intro h
      have hstart : bytes "bitrate=" <+: c' :: pre := prefix_of_prefix_append_cons hc h
      exact hpre hstart.isInfix
    rw [List.cons_append, bitrateValues, if_neg hhere]
    exact ih fun hinfix => hpre (List.infix_cons hinfix)

lemma bitrateValues_absent {s : Str} (h : ¬bytes "bitrate=" <:+: s) : bitrateValues s = some [] := by
  induction s with
  | nil => rfl
  | cons c s ih =>
    rw [bitrateValues, if_neg fun hpre => h hpre.isInfix]
    exact ih fun hinfix => h (List.infix_cons hinfix)

lemma bitrateValues_delimited {t : Str} (ht : Delimited t) {pre : Str} (hpre : ¬bytes "bitrate=" <:+: pre) :
    bitrateValues (pre ++ t) = bitrateValues t := by
  obtain ⟨c, t', rfl, hc⟩ := ht
  have hhere : bitrateValues ([] ++ c :: t') = bitrateValues t' := bitrateValues_skip hc (by decide) t'
  rw [bitrateValues_skip hc hpre t']
  exact hhere.symm

lemma intFloat_number {s : Str} (h : IsNumber s) : intFloat s = some (digitsVal s) :=
  if_pos ⟨h.1, List.all_eq_true.mpr h.2.1⟩

/-- The number of a bitrate attribute is read. -/
lemma bitrateValues_written {a : Attribute} (ha : a.WellFormed) (hname : a.name = bytes "bitrate")
    (hequals : a.equals = [61]) (hquote : a.quote = 34) (hvalue : IsNumber a.value) (t : Str) :
    bitrateValues (a.text ++ t) = (bitrateValues t).map ((digitsVal a.value : Int) :: ·) := by
  have htext : a.text ++ t = a.front ++ 98 :: (bytes "itrate=" ++ 34 :: (a.value ++ 34 :: t)) := by
    rw [Attribute.text, hname, hequals, hquote]
    simp only [List.append_assoc, List.cons_append, List.nil_append]
    rfl
  have hfront : 98 ∉ a.front := by
    intro h
    exact absurd (ha.front.2 98 h) (by decide)
  have hmatch : bytes "bitrate=" <+: 98 :: (bytes "itrate=" ++ 34 :: (a.value ++ 34 :: t)) := by
    have hneedle : bytes "bitrate=" = 98 :: bytes "itrate=" := by decide
    rw [hneedle, List.cons_prefix_cons]
    exact ⟨rfl, List.prefix_append _ _⟩
  have hquoted : ((98 :: (bytes "itrate=" ++ 34 :: (a.value ++ 34 :: t))).drop 9).takeWhile (· ≠ 34) = a.value := by
    have hdrop : (98 :: (bytes "itrate=" ++ 34 :: (a.value ++ 34 :: t))).drop 9 = a.value ++ 34 :: t := rfl
    have hdigits : ∀ b ∈ a.value, (decide (b ≠ 34)) = true := by
      intro b hb
      exact decide_eq_true (ne_of_isdigit (hvalue.2.1 b hb) (by decide))
    rw [hdrop, List.takeWhile_append_of_pos hdigits, List.takeWhile_cons_of_neg (by simp), List.append_nil]
  -- the rest of the match and the value have no further one
  have hrest : bitrateValues (bytes "itrate=" ++ 34 :: (a.value ++ 34 :: t)) = bitrateValues t := by
    have hassoc : bytes "itrate=" ++ 34 :: (a.value ++ 34 :: t) =
        (bytes "itrate=" ++ 34 :: (a.value ++ [34])) ++ t := by
      simp only [List.append_assoc, List.cons_append, List.nil_append]
    have hno : 98 ∉ bytes "itrate=" ++ 34 :: (a.value ++ [34]) := by
      simp only [List.mem_append, List.mem_cons, List.not_mem_nil, or_false, not_or]
      refine ⟨by decide, by decide, fun hmem => ?_, by decide⟩
      exact absurd (hvalue.2.1 98 hmem) (by decide)
    rw [hassoc, bitrateValues_append hno]
  rw [htext, bitrateValues_append hfront, bitrateValues, if_pos hmatch, hquoted, intFloat_number hvalue, hrest]
  simp only [Option.bind_eq_bind, Option.bind_some, Option.pure_def]
  rw [Option.map_eq_bind]
  rfl

/-- An attribute of another name is skipped. -/
lemma bitrateValues_other {a : Attribute} (ha : a.WellFormed) (hno : ¬bytes "bitrate=" <:+: a.text) (t : Str) :
    bitrateValues (a.text ++ t) = bitrateValues t := by
  have htext : a.text = a.front ++ (a.name ++ (a.equals ++ a.quote :: a.value)) ++ [a.quote] := by
    rw [Attribute.text]
    simp
  have hquote : a.quote ∉ bytes "bitrate=" := by
    rcases ha.quote.1 with h | h <;> rw [h] <;> decide
  have hpre : ¬bytes "bitrate=" <:+: a.front ++ (a.name ++ (a.equals ++ a.quote :: a.value)) := by
    intro h
    apply hno
    rw [htext]
    exact h.trans (List.prefix_append _ _).isInfix
  rw [htext, List.append_assoc, List.singleton_append]
  exact bitrateValues_skip hquote hpre t

/-- The attributes of a tag have at most one bitrate. -/
lemma bitrateValues_attributes {attributes : List Attribute} (hwf : ∀ a ∈ attributes, a.WellFormed)
    (honce : (attributes.map Attribute.name).Nodup)
    (hwritten : ∀ a ∈ attributes, a.name = bytes "bitrate" → a.equals = [61] ∧ a.quote = 34 ∧ IsNumber a.value)
    (hother : ∀ a ∈ attributes, a.name ≠ bytes "bitrate" → ¬bytes "bitrate=" <:+: a.text) (t : Str) :
    bitrateValues (attributes.flatMap Attribute.text ++ t) = (bitrateValues t).map
      (((attributes.find? (·.name = bytes "bitrate")).map fun a => (digitsVal a.value : Int)).toList ++ ·) := by
  induction attributes with
  | nil => cases h : bitrateValues t <;> simp [h]
  | cons a attributes ih =>
    have ha := hwf a List.mem_cons_self
    rw [List.map_cons, List.nodup_cons] at honce
    have hrest := ih (fun b hb => hwf b (List.mem_cons_of_mem a hb)) honce.2
      (fun b hb => hwritten b (List.mem_cons_of_mem a hb)) (fun b hb => hother b (List.mem_cons_of_mem a hb))
    rw [List.flatMap_cons, List.append_assoc]
    by_cases hname : a.name = bytes "bitrate"
    · obtain ⟨hequals, hquote, hvalue⟩ := hwritten a List.mem_cons_self hname
      have hnone : attributes.find? (·.name = bytes "bitrate") = none := by
        rw [List.find?_eq_none]
        intro b hb hb'
        exact honce.1 (List.mem_map.mpr ⟨b, hb, (of_decide_eq_true hb').trans hname.symm⟩)
      rw [hnone] at hrest
      rw [List.find?_cons_of_pos (by simpa using hname), bitrateValues_written ha hname hequals hquote hvalue, hrest]
      cases bitrateValues t <;> rfl
    · rw [List.find?_cons_of_neg (by simpa using hname), bitrateValues_other ha (hother a List.mem_cons_self hname)]
      exact hrest

lemma bitrateValues_element {e : Element} (he : e.WellFormed) (hplain : e.Plain) (t : Str) :
    bitrateValues (e.body ++ t) = (bitrateValues (e.rest ++ t)).map (e.shown.toList ++ ·) := by
  have hassoc : e.body ++ t = e.name ++ (e.attributes.flatMap Attribute.text ++ (e.rest ++ t)) := by
    rw [Element.body]
    simp only [List.append_assoc]
  have hdelimited : Delimited (e.attributes.flatMap Attribute.text ++ (e.rest ++ t)) := by
    cases hattributes : e.attributes with
    | nil => exact he.delimited_rest t
    | cons a attributes =>
      rw [List.flatMap_cons, List.append_assoc]
      apply Attribute.WellFormed.delimited
      apply he.attributes
      rw [hattributes]
      exact List.mem_cons_self
  rw [hassoc, bitrateValues_delimited hdelimited he.name.avoids,
    bitrateValues_attributes he.attributes he.once hplain.written hplain.attributes, Element.shown,
    Element.bitrateAttribute]

/-- The elements of a plain manifest show their bitrates in order. -/
lemma bitrateValues_elements {elements : List Element} (hwf : ∀ e ∈ elements, e.WellFormed)
    (hplain : ∀ e ∈ elements, e.Plain) {pre : Str} (hpre : ¬bytes "bitrate=" <:+: pre) :
    bitrateValues (pre ++ elementsText elements) = some (elements.filterMap Element.shown) := by
  induction elements generalizing pre with
  | nil =>
    rw [elementsText, List.flatMap_nil, List.append_nil]
    exact bitrateValues_absent hpre
  | cons e later ih =>
    have htext : elementsText (e :: later) = 60 :: (e.body ++ elementsText later) := rfl
    have hlater := ih (fun x hx => hwf x (List.mem_cons_of_mem e hx)) (fun x hx => hplain x (List.mem_cons_of_mem e hx))
      (hplain e List.mem_cons_self).rest
    rw [htext, bitrateValues_skip (by decide) hpre,
      bitrateValues_element (hwf e List.mem_cons_self) (hplain e List.mem_cons_self), hlater, Option.map_some]
    cases hshown : e.shown with
    | none => rw [List.filterMap_cons_none hshown]; rfl
    | some v => rw [List.filterMap_cons_some hshown]; rfl

/-- A manifest that both proxies read: bitrates are in `<media` elements only, each of which has one, and are
written plainly. -/
structure Readable (m : Manifest) : Prop where
  plain : ∀ e ∈ m.elements, e.Plain
  media : ∀ e ∈ m.elements, e.bitrate = e.shown
  bare : NoBareMedia m.elements
  declaration : ¬bytes "bitrate=" <:+: bytes "<?xml" ++ m.declaration

/-- Both proxies read the same list. -/
lemma Readable.lists {m : Manifest} (h : Readable m) {buf : List UInt8} (hbuf : cstr buf = m.text) :
    ∃ list, parseXmlToList buf = some list ∧ readBr m.text = some list ∧ list.Pairwise (· ≤ ·) ∧
      list.Perm m.bitrates := by
  have hparse := parseXmlToList_manifest hbuf
  rw [mediaLog_text, mediaLog_plain m.wellFormed h.plain, Option.map_some] at hparse
  have hperm := insertAll_perm (announced m.elements) []
  rw [List.append_nil, h.bare.announced_eq] at hperm
  have hsorted := parseXmlToList_sorted hparse
  have hshown : m.elements.filterMap Element.shown = m.bitrates :=
    (List.filterMap_congr fun e he => h.media e he).symm
  have htext : m.text = bytes "<?xml" ++ m.declaration ++ elementsText m.elements := by
    rw [Manifest.text, List.append_assoc]
  refine ⟨_, hparse, ?_, hsorted, hperm⟩
  rw [readBr, htext, bitrateValues_elements m.wellFormed h.plain h.declaration, Option.map_some, hshown]
  congr 1
  exact List.Perm.eq_of_pairwise' (List.pairwise_insertionSort _ _) hsorted
    ((List.perm_insertionSort _ _).trans hperm.symm)

/-! ## The choice -/

lemma picks_of_isChoice {list : List Int} {tpt : Nat} {b : Int} (h : IsChoice list tpt b) :
    Picks list (Affordable tpt) b := h

/-- Two thirds of the estimate bound the one choice, two thirds of the average the other, which must be
above the bitrate. -/
lemma choices_eq_iff {list : List Int} (hsorted : list.Pairwise (· ≤ ·)) (hne : list ≠ []) (tpt : Nat) (avg : ℚ) :
    ∃ b b', selectBitrate list tpt = some b ∧ getBr list avg = some b' ∧
      (b = b' ↔ ∀ i ∈ list, NotLeast list i → (3 * i ≤ 2 * tpt ↔ (i : ℚ) * (3 / 2) < avg)) := by
  obtain ⟨b, hb, hchoice⟩ := selectBitrate_spec tpt hsorted hne
  obtain ⟨b', hb', hpicks⟩ := getBr_picks avg hsorted hne
  refine ⟨b, b', hb, hb', ?_⟩
  exact (picks_of_isChoice hchoice).eq_iff hpicks (fun i j hle (hj : Affordable tpt j) => hj.of_le hle)
    fun i j hle (hj : BelowAvg avg j) => hj.of_le hle

/-! ## The path -/

/-- The path of a chunk in the encoding the player names. -/
def playerPath (P s f : Str) : Str := chunkUri P (bytes "1000") s f

/-- The name of the encoding stands only where the player writes it, and the path is not that of the
manifest. -/
structure NamesEncodingOnce (P s f : Str) : Prop where
  path : ¬bytes "1000" <:+: P
  segment : ¬bytes "1000" <:+: s
  fragment : ¬bytes "1000" <:+: f
  manifest : ¬bytes "big_buck_bunny.f4m" <:+: playerPath P s f

lemma targetPath_player {P s f : Str} (h : NamesEncodingOnce P s f) {p : RefProxy} {b : Int}
    (hb : getBr p.br p.avg = some b) : targetPath p (playerPath P s f) = some (chunkUri P (decimalInt b) s f) := by
  have hsplit : playerPath P s f =
      (47 :: (P ++ [47])) ++ (bytes "1000" ++ (bytes "Seg" ++ s ++ bytes "-Frag" ++ f)) := by
    simp only [playerPath, chunkUri, List.append_assoc, List.cons_append, List.nil_append]
  have hfirst : ∀ j < (47 :: (P ++ [47])).length, ¬bytes "1000" <+:
      ((47 :: (P ++ [47])) ++ (bytes "1000" ++ (bytes "Seg" ++ s ++ bytes "-Frag" ++ f))).drop j := by
    intro j hj
    have hassoc : (47 :: (P ++ [47])) ++ (bytes "1000" ++ (bytes "Seg" ++ s ++ bytes "-Frag" ++ f)) =
        (47 :: P) ++ 47 :: (bytes "1000" ++ (bytes "Seg" ++ s ++ bytes "-Frag" ++ f)) := by
      simp only [List.append_assoc, List.cons_append, List.nil_append]
    have hno : ¬bytes "1000" <:+: 47 :: P := by
      rw [← List.nil_append (47 :: P), infix_append_cons_iff (by decide), not_or]
      exact ⟨by decide, h.path⟩
    rw [hassoc]
    apply not_prefix_drop_of_not_infix (by decide) hno
    simp only [List.length_cons, List.length_append, List.length_nil] at hj ⊢
    omega
  have hrest : ¬bytes "1000" <:+: bytes "Seg" ++ s ++ bytes "-Frag" ++ f := by
    have hassoc : bytes "Seg" ++ s ++ bytes "-Frag" ++ f =
        bytes "Se" ++ 103 :: (s ++ 45 :: (bytes "Fra" ++ 103 :: f)) := by
      simp only [List.append_assoc]
      rfl
    rw [hassoc, infix_append_cons_iff (by decide), infix_append_cons_iff (by decide),
      infix_append_cons_iff (by decide), not_or, not_or, not_or]
    exact ⟨by decide, h.segment, by decide, h.fragment⟩
  rw [targetPath, replaceAll_of_not_infix h.manifest, hb]
  simp only [Option.bind_eq_bind, Option.bind_some, Option.pure_def]
  rw [hsplit, replaceAll_append_of_first hfirst, replaceAll_match (by decide), replaceAll_of_not_infix hrest]
  simp only [chunkUri, List.append_assoc, List.cons_append, List.nil_append]

/-- The reference starts with the list, and the least bitrate as its average. -/
lemma startServer_eq {v : Str} {list : List Int} (hread : readBr v = some list) (hne : list ≠ []) (alpha : ℚ) :
    ∃ first : Int, list.head? = some first ∧ startServer alpha v = some ⟨list, first, alpha⟩ := by
  obtain ⟨first, rest, rfl⟩ := List.exists_cons_of_ne_nil hne
  refine ⟨first, rfl, ?_⟩
  rw [startServer, hread]
  rfl

/-- From a manifest that is read by both, with an estimate of the one and an average of the other, both proxies
ask for the same chunk exactly when no bitrate but the least lies between their bounds. What the one asks for is
what it sends to the server, where the bitrate can be written into the request. -/
theorem same_chunk_asked_iff (m : Manifest) (hm : Readable m) (hbitrates : m.bitrates ≠ []) (buf : List UInt8)
    (hbuf : cstr buf = m.text) :
    ∃ list, parseXmlToList buf = some list ∧ readBr m.text = some list ∧ list.Perm m.bitrates ∧
      (∀ alpha, ∃ first : Int, list.head? = some first ∧ startServer alpha m.text = some ⟨list, first, alpha⟩) ∧
      ∀ (tpt : Nat) (p : RefProxy), p.br = list → ∀ (P s f : Str), NamesEncodingOnce P s f →
        ∃ b path, selectBitrate list tpt = some b ∧ targetPath p (playerPath P s f) = some path ∧
          (path = chunkUri P (decimalInt b) s f ↔
            ∀ i ∈ m.bitrates, NotLeast m.bitrates i → (3 * i ≤ 2 * tpt ↔ (i : ℚ) * (3 / 2) < p.avg)) ∧
          ∀ (config : Config) (conn : ProxyConn) (data : List UInt8) (r : BrowserResult) (request : Http.Request),
            chooseList config conn = list → conn.tCurr = tpt → handlerBrowser config conn data = some r →
            r.forwarded = some request → Http.checkType request = .chunk → Rewritable request b P (bytes "1000") s f →
              r.sent = [⟨.server, chunkText request P (decimalInt b) s f⟩] := by
  obtain ⟨list, hparse, hread, hsorted, hperm⟩ := hm.lists hbuf
  have hne : list ≠ [] := by
    rintro rfl
    exact hbitrates hperm.nil_eq.symm
  refine ⟨list, hparse, hread, hperm, startServer_eq hread hne, fun tpt p hbr P s f hnames => ?_⟩
  obtain ⟨b, b', hb, hb', hiff⟩ := choices_eq_iff hsorted hne tpt p.avg
  refine ⟨b, _, hb, targetPath_player hnames (hbr ▸ hb'), ?_, ?_⟩
  · have hleast : ∀ i, NotLeast list i ↔ NotLeast m.bitrates i := by
      intro i
      simp only [NotLeast, hperm.mem_iff]
    have huri : chunkUri P (decimalInt b') s f = chunkUri P (decimalInt b) s f ↔ b = b' := by
      rw [chunkUri, chunkUri, List.cons.injEq, List.append_cancel_left_eq, List.cons.injEq,
        List.append_cancel_right_eq, decimalInt_inj]
      simp only [true_and, eq_comm]
    rw [huri, hiff]
    simp only [hperm.mem_iff, hleast]
  · rintro config conn data r request rfl rfl hcall hforwarded htype hrewritable
    exact handlerBrowser_sent hcall hforwarded htype hb hrewritable

section Example

lemma pair_wellFormed {x : Element}
    (h : x = mediaElement (bytes "bitrate") (bytes "500") ∨ x = mediaElement (bytes "bitrate") (bytes "1000")) :
    x.WellFormed := by
  rcases h with rfl | rfl
  · exact bitrate_wellFormed
  · exact mediaElement_wellFormed (by decide) (by decide) (by decide) (by decide) (by decide)

/-- `<media bitrate="500"/><media bitrate="1000"/>` -/
def pairManifest : Manifest :=
  twoElements (mediaElement (bytes "bitrate") (bytes "500")) (mediaElement (bytes "bitrate") (bytes "1000"))
    fun _ hx => pair_wellFormed (by simpa using hx)

lemma readable_pairManifest : Readable pairManifest where
  plain := by
    intro e he
    rcases List.mem_pair.mp he with rfl | rfl
    · exact mediaElement_plain (by decide) (by decide)
    · exact mediaElement_plain (by decide) (by decide)
  media := by
    intro e he
    rcases List.mem_pair.mp he with rfl | rfl <;> decide
  bare := by
    have hfirst : (mediaElement (bytes "bitrate") (bytes "500")).bitrate ≠ none := by decide
    have hsecond : (mediaElement (bytes "bitrate") (bytes "1000")).bitrate ≠ none := by decide
    have hnil : NoBareMedia [] := by
      intro before e later heq
      simp at heq
    change NoBareMedia [_, _]
    rw [noBareMedia_cons, noBareMedia_cons]
    exact ⟨fun _ h => absurd h hfirst, fun _ h => absurd h hsecond, hnil⟩
  declaration := by decide +kernel

lemma namesEncodingOnce_vod : NamesEncodingOnce (bytes "vod") (bytes "1") (bytes "2") where
  path := by decide
  segment := by decide
  fragment := by decide
  manifest := by decide +kernel

def pairConn : ProxyConn := { newConn with bitrateList := [500, 1000], tCurr := 1500 }

def pairData : List UInt8 := bytes "GET /vod/1000Seg1-Frag2 HTTP/1.1\r\nHost: b\r\n\r\n"

def pairRequest : Http.Request :=
  ⟨bytes "GET", playerPath (bytes "vod") (bytes "1") (bytes "2"), some (bytes "HTTP/1.1"),
    [(bytes "Host", bytes "b")], 1, 0, Http.success, 45⟩

/-- On the bound the one proxy affords the greater bitrate, the other does not. -/
theorem same_chunk_asked_iff_pair :
    ∃ path r, startServer (1 / 2) pairManifest.text = some ⟨[500, 1000], 500, 1 / 2⟩ ∧
      targetPath ⟨[500, 1000], 1500, 1 / 2⟩ (playerPath (bytes "vod") (bytes "1") (bytes "2")) = some path ∧
      handlerBrowser newConfig pairConn pairData = some r ∧
      r.sent = [⟨.server, chunkText pairRequest (bytes "vod") (bytes "1000") (bytes "1") (bytes "2")⟩] ∧
      (path = chunkUri (bytes "vod") (bytes "1000") (bytes "1") (bytes "2") ↔
        ∀ i ∈ pairManifest.bitrates, NotLeast pairManifest.bitrates i →
          (3 * i ≤ 2 * (1500 : Nat) ↔ (i : ℚ) * (3 / 2) < 1500)) := by
  have hbuf : cstr pairManifest.text = pairManifest.text := by decide +kernel
  have hpair : parseXmlToList pairManifest.text = some [500, 1000] := by decide +kernel
  have h : ((handlerBrowser newConfig pairConn pairData).map BrowserResult.forwarded) = some (some pairRequest) := by
    decide +kernel
  obtain ⟨r, hcall, hforwarded⟩ := Option.map_eq_some_iff.mp h
  obtain ⟨list, hparse, -, -, hstart, hall⟩ :=
    same_chunk_asked_iff pairManifest readable_pairManifest (by decide) pairManifest.text hbuf
  obtain rfl := Option.some.inj (hparse.symm.trans hpair)
  obtain ⟨first, hfirst, hstart⟩ := hstart (1 / 2)
  obtain rfl := Option.some.inj hfirst
  obtain ⟨b, path, hb, hpath, hiff, hsent⟩ := hall 1500 ⟨[500, 1000], 1500, 1 / 2⟩ rfl _ _ _ namesEncodingOnce_vod
  obtain rfl : 1000 = b := Option.some.inj hb
  refine ⟨path, r, hstart, hpath, hcall, ?_, hiff⟩
  exact hsent newConfig pairConn pairData r pairRequest rfl rfl hcall hforwarded (by decide +kernel)
    ⟨rfl, by decide, by decide, List.all_eq_true.mp (by decide : (bytes "1000").all isdigit = true), by decide⟩

end Example

/-! ## The averages -/

lemma truncate_div (n d : Nat) : truncate ((n : ℚ) / d) = (n / d : Nat) := by
  have hnonneg : 0 ≤ ((n : ℚ) / d).num := Rat.num_nonneg.mpr (by positivity)
  have hfloor : ⌊(n : ℚ) / d⌋ = ((n : ℚ) / d).num / ((n : ℚ) / d).den := Rat.floor_def _
  rw [truncate, Int.tdiv_eq_ediv_of_nonneg hnonneg, ← hfloor, Rat.floor_natCast_div_natCast, Int.natCast_div]

/-- Both proxies measure the same throughput. -/
lemma truncate_measured {chunkSize duration T : Nat} (h : measuredTpt chunkSize duration = some T) :
    truncate (8 * chunkSize / ((duration : ℚ) / 1000) / 1000) = T := by
  have hne : duration ≠ 0 := by
    intro hzero
    rw [measuredTpt, if_pos hzero] at h
    cases h
  rw [measuredTpt_eq hne] at h
  obtain rfl := Option.some.inj h
  have hvalue : 8 * (chunkSize : ℚ) / ((duration : ℚ) / 1000) / 1000 = ((8 * chunkSize : Nat) : ℚ) / duration := by
    have hpos : (duration : ℚ) ≠ 0 := Nat.cast_ne_zero.mpr hne
    push_cast
    field_simp
  rw [hvalue, truncate_div]

/-- A connection for a chunk. -/
lemma connectionHandler_chunk {p p' : RefProxy} {path path' : Str} {cl : Nat} {reqTime : ℚ}
    (h : connectionHandler p path cl reqTime = some (path', p')) (hseg : bytes "Seg" <:+: path') :
    reqTime ≠ 0 ∧ p' = { p with avg := (1 - p.alpha) * p.avg + p.alpha * truncate (8 * cl / reqTime / 1000) } := by
  obtain ⟨path₁, -, h⟩ := Option.bind_eq_some_iff.mp h
  by_cases hchunk : bytes "Seg" <:+: path₁
  · rw [if_pos hchunk] at h
    by_cases hzero : reqTime = 0
    · rw [if_pos hzero] at h
      cases h
    · rw [if_neg hzero] at h
      exact ⟨hzero, (Prod.mk.inj (Option.some.inj h)).2.symm⟩
  · rw [if_neg hchunk] at h
    obtain ⟨rfl, -⟩ := Prod.mk.inj (Option.some.inj h)
    exact absurd hseg hchunk

/-- The average after chunks of the sizes and durations of `calls`. -/
lemma serveAll_averages {p p' : RefProxy} {requests : List (Str × Nat × ℚ)} {asked : List Str}
    {calls : List EstimateCall}
    (hsame : requests.map Prod.snd = calls.map fun c => (c.chunkSize, (c.duration : ℚ) / 1000))
    (hserve : serveAll p requests = some (asked, p')) (hchunks : ∀ path ∈ asked, bytes "Seg" <:+: path) :
    (measuredIn calls).length = requests.length ∧ p'.avg = averages p.alpha p.avg (measuredIn calls) := by
  induction requests generalizing p asked calls with
  | nil =>
    obtain rfl : calls = [] := by simpa using hsame.symm
    obtain ⟨-, rfl⟩ := Prod.mk.inj (Option.some.inj hserve)
    exact ⟨rfl, rfl⟩
  | cons request requests ih =>
    obtain ⟨path, cl, reqTime⟩ := request
    cases calls with
    | nil => simp at hsame
    | cons call calls =>
      simp only [List.map_cons, List.cons.injEq, Prod.mk.injEq] at hsame
      obtain ⟨⟨rfl, rfl⟩, hsame⟩ := hsame
      obtain ⟨⟨path₁, p₁⟩, hone, hserve⟩ := Option.bind_eq_some_iff.mp hserve
      obtain ⟨⟨asked₁, p₂⟩, hrest, hserve⟩ := Option.bind_eq_some_iff.mp hserve
      obtain ⟨rfl, rfl⟩ := Prod.mk.inj (Option.some.inj hserve)
      obtain ⟨htime, rfl⟩ := connectionHandler_chunk hone (hchunks path₁ List.mem_cons_self)
      obtain ⟨hlength, havg⟩ := ih hsame hrest fun path hpath => hchunks path (List.mem_cons_of_mem path₁ hpath)
      have hduration : call.duration ≠ 0 := by
        intro hzero
        rw [hzero] at htime
        simp at htime
      have hT : call.measured = some (8 * call.chunkSize / call.duration) := measuredTpt_eq hduration
      have hcons : measuredIn (call :: calls) = 8 * call.chunkSize / call.duration :: measuredIn calls := by
        rw [measuredIn, List.filterMap_cons_some hT]
        rfl
      rw [truncate_measured hT] at havg
      rw [hcons]
      refine ⟨congrArg Nat.succ hlength, havg.trans ?_⟩
      simp only [averages, List.foldl_cons, Int.cast_natCast, add_comm]

/-- In every run of the proxy with addresses apart, when the reference proxy serves chunks of the sizes and
durations of one client's, its average is off the client's estimate by less than `1 / alpha`, and by what
is left of the difference they began with. -/
theorem estimate_near_reference (U : Set InAddr) (hU : TextsApart U) (config : Config)
    (hentries : EntriesFrom U config.ipTptList) (h0 : 0 < config.alpha) (h1 : config.alpha ≤ 1) (w : ProxyState)
    (calls : List EstimateCall) (hrun : LoggedRun (ClientOf U) (ProxyState.start config) w calls) (q : InAddr)
    (hq : q ∈ U) (p p' : RefProxy) (halpha : p.alpha = config.alpha) (requests : List (Str × Nat × ℚ))
    (asked : List Str) (hsame : requests.map Prod.snd =
      (calls.filter fun call => call.ip = inetNtoa q).map fun call => (call.chunkSize, (call.duration : ℚ) / 1000))
    (hserve : serveAll p requests = some (asked, p')) (hchunks : ∀ path ∈ asked, bytes "Seg" <:+: path) :
    ∃ left : ℚ, left = (1 - config.alpha) ^ requests.length ∧
      left * (p.avg - storedTpt config.ipTptList (inetNtoa q)) ≤
        p'.avg - storedTpt w.config.ipTptList (inetNtoa q) ∧
      p'.avg - storedTpt w.config.ipTptList (inetNtoa q) ≤
        left * (p.avg - storedTpt config.ipTptList (inetNtoa q)) + (1 - left) / config.alpha := by
  obtain ⟨hhistory, -, -⟩ := hrun.history hU hentries
  have hstored : storedTpt w.config.ipTptList (inetNtoa q) =
      floorAverages config.alpha (storedTpt config.ipTptList (inetNtoa q)) (measuredFor (inetNtoa q) calls) :=
    hhistory.stored q hq
  obtain ⟨hlength, havg⟩ := serveAll_averages hsame hserve hchunks
  have hnear := averages_sub_floorAverages h0 h1 p.avg (storedTpt config.ipTptList (inetNtoa q))
    (measuredFor (inetNtoa q) calls)
  rw [halpha] at havg
  refine ⟨_, rfl, ?_⟩
  rw [hstored, havg, ← hlength]
  exact hnear

section Example

/-- A byte a millisecond. -/
def chunkRequests : List (Str × Nat × ℚ) := [(playerPath (bytes "vod") (bytes "1") (bytes "2"), 1, 1 / 1000)]

theorem estimate_near_reference_chunk :
    ∃ (w : ProxyState) (p' : RefProxy) (left : ℚ), left = (1 - tickingConfig.alpha) ^ 1 ∧
      left * (10 - storedTpt tickingConfig.ipTptList (inetNtoa ⟨1, 0, 0, 1⟩)) ≤
        p'.avg - storedTpt w.config.ipTptList (inetNtoa ⟨1, 0, 0, 1⟩) ∧
      p'.avg - storedTpt w.config.ipTptList (inetNtoa ⟨1, 0, 0, 1⟩) ≤
        left * (10 - storedTpt tickingConfig.ipTptList (inetNtoa ⟨1, 0, 0, 1⟩)) +
          (1 - left) / tickingConfig.alpha := by
  have h : (runEvents (ProxyState.start tickingConfig) chunkEvents).map (fun p =>
      (p.2.filter fun call => call.ip = inetNtoa ⟨1, 0, 0, 1⟩).map fun call => (call.chunkSize, call.duration)) =
      some [(1, 1)] := by
    decide +kernel
  have hserved : (serveAll ⟨[10], 10, 1 / 2⟩ chunkRequests).map Prod.fst =
      some [chunkUri (bytes "vod") (bytes "10") (bytes "1") (bytes "2")] := by
    decide +kernel
  obtain ⟨⟨w, calls⟩, hevents, hcalls⟩ := Option.map_eq_some_iff.mp h
  obtain ⟨⟨asked, p'⟩, hserve, hasked⟩ := Option.map_eq_some_iff.mp hserved
  have halpha : tickingConfig.alpha = 1 / 2 := rfl
  have hsame : chunkRequests.map Prod.snd = (calls.filter fun call => call.ip = inetNtoa ⟨1, 0, 0, 1⟩).map fun call =>
      (call.chunkSize, (call.duration : ℚ) / 1000) := by
    have hmap := congrArg (List.map fun c : Nat × Nat => (c.1, (c.2 : ℚ) / 1000)) hcalls
    rw [List.map_map] at hmap
    rw [chunkRequests]
    simpa [Function.comp_def] using hmap.symm
  have hchunks : ∀ path ∈ asked, bytes "Seg" <:+: path := by
    intro path hpath
    change asked = _ at hasked
    rw [hasked, List.mem_singleton] at hpath
    rw [hpath]
    decide +kernel
  obtain ⟨left, hleft, hnear⟩ := estimate_near_reference twoClients twoClients_apart tickingConfig
    (fun e he => (List.not_mem_nil he).elim) (by norm_num [halpha]) (by norm_num [halpha]) w calls
    (loggedRun_of_events chunkEvents_clients hevents) ⟨1, 0, 0, 1⟩ (Or.inl rfl) ⟨[10], 10, 1 / 2⟩ p' rfl
    chunkRequests asked hsame hserve hchunks
  exact ⟨w, p', left, hleft, hnear⟩

end Example

end VideoCDN.Reference
