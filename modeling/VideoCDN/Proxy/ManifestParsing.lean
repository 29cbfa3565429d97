import VideoCDN.Proxy.ManifestText

/-!
# The bitrates of a manifest

The loop of `parse_xml_to_list` does not look for the end of an element. So a `<media` without a
bitrate gets that of the next element that has one.
-/

namespace VideoCDN.Proxy

open CString Nameserver

/-- Bitrates are written `bitrate="<digits>"`, and `bitrate=` occurs nowhere else in the text. -/
structure Element.Plain (e : Element) : Prop where
  written : ∀ a ∈ e.attributes, a.name = bytes "bitrate" → a.equals = [61] ∧ a.quote = 34 ∧ IsNumber a.value
  attributes : ∀ a ∈ e.attributes, a.name ≠ bytes "bitrate" → ¬bytes "bitrate=" <:+: a.text
  rest : ¬bytes "bitrate=" <:+: e.rest

/-- Behind a `<media` without a bitrate there is none. -/
def NoBareMedia (elements : List Element) : Prop :=
  ∀ before e later, elements = before ++ e :: later → e.Scanned → e.bitrate = none →
    ∀ e' ∈ e :: later, e'.shown = none

lemma scanBitrate_skip {pre : List UInt8} {c : UInt8} (hc : c ∉ bytes "bitrate=")
    (hpre : ¬bytes "bitrate=" <:+: pre) (post : List UInt8) : scanBitrate (pre ++ c :: post) = scanBitrate post := by
  have hfind := strstr_skip hc hpre post
  unfold scanBitrate
  rw [hfind]
  cases strstr (bytes "bitrate=") post with
  | none => rfl
  | some i =>
    have hdrop : (pre ++ c :: post).drop (i + (pre.length + 1) + 8) = post.drop (i + 8) := by
      have hsplit : pre ++ c :: post = (pre ++ [c]) ++ post := by simp
      have hcount : i + (pre.length + 1) + 8 = (pre ++ [c]).length + (i + 8) := by
        rw [List.length_append, List.length_singleton]
        omega
      rw [hsplit, hcount, List.drop_length_add_append]
    simp only [Option.map_some, hdrop]

/-- What follows a name, or the text of a tag, starts with a byte that is not in `bitrate=`. -/
def Delimited (t : List UInt8) : Prop := ∃ c t', t = c :: t' ∧ c ∉ bytes "bitrate="

lemma notMem_of_isspace {c : UInt8} (h : isspace c = true) : c ∉ bytes "bitrate=" := by
  intro hmem
  have hall : (bytes "bitrate=").all (fun b => !isspace b) = true := by decide
  have hno := List.all_eq_true.mp hall c hmem
  rw [h] at hno
  cases hno

lemma Delimited.scanBitrate_append {t : List UInt8} (ht : Delimited t) {pre : List UInt8}
    (hpre : ¬bytes "bitrate=" <:+: pre) : scanBitrate (pre ++ t) = scanBitrate t := by
  obtain ⟨c, t', rfl, hc⟩ := ht
  have hhere : scanBitrate ([] ++ c :: t') = scanBitrate t' := scanBitrate_skip hc (by decide) t'
  rw [scanBitrate_skip hc hpre t']
  exact hhere.symm

lemma Element.WellFormed.delimited_rest {e : Element} (he : e.WellFormed) (t : List UInt8) : Delimited (e.rest ++ t) := by
  obtain ⟨b, after, hrest, hb⟩ := he.rest
  refine ⟨b, after ++ t, by rw [hrest, List.cons_append], ?_⟩
  rcases hb with hb | rfl | rfl
  · exact notMem_of_isspace hb
  · decide
  · decide

lemma Attribute.WellFormed.delimited {a : Attribute} (ha : a.WellFormed) (t : List UInt8) : Delimited (a.text ++ t) := by
  obtain ⟨c, front, hfront⟩ := List.exists_cons_of_ne_nil ha.front.1
  refine ⟨c, front ++ (a.name ++ (a.equals ++ a.quote :: (a.value ++ [a.quote]))) ++ t, ?_, ?_⟩
  · rw [Attribute.text, hfront, List.cons_append, List.cons_append]
  · apply notMem_of_isspace
    apply ha.front.2
    rw [hfront]
    exact List.mem_cons_self

/-- The number of a bitrate attribute is read. -/
lemma scanBitrate_written {a : Attribute} (ha : a.WellFormed) (hname : a.name = bytes "bitrate")
    (hequals : a.equals = [61]) (hquote : a.quote = 34) (hvalue : IsNumber a.value) (t : List UInt8) :
    scanBitrate (a.text ++ t) = some (some (digitsVal a.value : Int)) := by
  have htext : a.text ++ t = a.front ++ bytes "bitrate=" ++ (34 :: (a.value ++ 34 :: t)) := by
    have hneedle : bytes "bitrate=" = bytes "bitrate" ++ [61] := by decide
    rw [Attribute.text, hname, hequals, hquote, hneedle]
    simp only [List.append_assoc, List.cons_append, List.nil_append]
  have hfront : 98 ∉ a.front := by
    intro h
    exact absurd (ha.front.2 98 h) (by decide)
  have hfirst : ∀ j < a.front.length,
      ¬bytes "bitrate=" <+: (a.front ++ bytes "bitrate=" ++ (34 :: (a.value ++ 34 :: t))).drop j := by
    intro j hj
    rw [List.append_assoc]
    exact not_prefix_drop_of_head_notMem 98 (bytes "itrate=") a.front _ hfront j hj
  have hend : ∀ b ∈ (34 :: t).head?, isdigit b = false := by
    intro b hb
    obtain rfl := Option.some.inj hb
    decide
  obtain ⟨hne, hdigits, hint⟩ := hvalue
  rw [htext, scanBitrate_first hfirst, List.head?_cons, if_pos rfl, List.tail_cons,
    scanInt_digits hdigits hne hend, if_neg (not_le.mpr hint)]
  rfl

/-- An attribute of another name is skipped. -/
lemma scanBitrate_other {a : Attribute} (ha : a.WellFormed) (hno : ¬bytes "bitrate=" <:+: a.text) (t : List UInt8) :
    scanBitrate (a.text ++ t) = scanBitrate t := by
  have htext : a.text = a.front ++ (a.name ++ (a.equals ++ a.quote :: a.value)) ++ [a.quote] := by
    rw [Attribute.text]
    simp
  have hquote : a.quote ∉ bytes "bitrate=" := by
    rcases ha.quote.1 with h | h
    · rw [h]
      decide
    · rw [h]
      decide
  have hpre : ¬bytes "bitrate=" <:+: a.front ++ (a.name ++ (a.equals ++ a.quote :: a.value)) := by
    intro h
    apply hno
    rw [htext]
    exact h.trans (List.prefix_append _ _).isInfix
  rw [htext, List.append_assoc, List.singleton_append]
  exact scanBitrate_skip hquote hpre t

/-- Behind the name of a tag its bitrate attribute is found, or the search goes on behind the tag. -/
lemma scanBitrate_attributes {attributes : List Attribute} (hwf : ∀ a ∈ attributes, a.WellFormed)
    (hwritten : ∀ a ∈ attributes, a.name = bytes "bitrate" → a.equals = [61] ∧ a.quote = 34 ∧ IsNumber a.value)
    (hother : ∀ a ∈ attributes, a.name ≠ bytes "bitrate" → ¬bytes "bitrate=" <:+: a.text) (t : List UInt8) :
    scanBitrate (attributes.flatMap Attribute.text ++ t) =
      match attributes.find? (·.name = bytes "bitrate") with
      | some a => some (some (digitsVal a.value : Int))
      | none => scanBitrate t := by
  induction attributes with
  | nil => rfl
  | cons a attributes ih =>
    have ha := hwf a List.mem_cons_self
    rw [List.flatMap_cons, List.append_assoc]
    by_cases hname : a.name = bytes "bitrate"
    · obtain ⟨hequals, hquote, hvalue⟩ := hwritten a List.mem_cons_self hname
      rw [List.find?_cons_of_pos (by simpa using hname), scanBitrate_written ha hname hequals hquote hvalue]
    · rw [List.find?_cons_of_neg (by simpa using hname),
        scanBitrate_other ha (hother a List.mem_cons_self hname)]
      exact ih (fun b hb => hwf b (List.mem_cons_of_mem a hb)) (fun b hb => hwritten b (List.mem_cons_of_mem a hb))
        (fun b hb => hother b (List.mem_cons_of_mem a hb))

lemma IsXmlName.avoids {s : List UInt8} (hs : IsXmlName s) : ¬bytes "bitrate=" <:+: s := by
  intro h
  have hmem : (61 : UInt8) ∈ s := h.subset (by decide)
  exact (hs.2 61 hmem).2.1 rfl

lemma scanBitrate_element {e : Element} (he : e.WellFormed) (hplain : e.Plain) (t : List UInt8) :
    scanBitrate (e.body ++ t) = (e.shown.map some).or (scanBitrate (e.rest ++ t)) := by
  have hassoc : e.body ++ t = e.name ++ (e.attributes.flatMap Attribute.text ++ (e.rest ++ t)) := by
    rw [Element.body]
    simp only [List.append_assoc]
  have hdelimited : Delimited (e.attributes.flatMap Attribute.text ++ (e.rest ++ t)) := by
    cases hattributes : e.attributes with
    | nil => exact he.delimited_rest t
    | cons a attributes =>
      rw [List.flatMap_cons, List.append_assoc]
      apply Attribute.WellFormed.delimited
      apply he.attributes
      rw [hattributes]
      exact List.mem_cons_self
  rw [hassoc, hdelimited.scanBitrate_append he.name.avoids,
    scanBitrate_attributes he.attributes hplain.written hplain.attributes, Element.shown, Element.bitrateAttribute]
  cases e.attributes.find? (·.name = bytes "bitrate") with
  | none => rfl
  | some a => rfl

/-- In a plain manifest the next bitrate attribute is read. -/
lemma scanBitrate_plain {e : Element} {later : List Element} (hwf : ∀ e' ∈ e :: later, e'.WellFormed)
    (hplain : ∀ e' ∈ e :: later, e'.Plain) :
    scanBitrate (e.body ++ elementsText later) = some ((e :: later).findSome? Element.shown) := by
  have hrest := (hplain e List.mem_cons_self).rest
  rw [scanBitrate_element (hwf e List.mem_cons_self) (hplain e List.mem_cons_self), List.findSome?_cons]
  induction later generalizing e with
  | nil =>
    rw [elementsText, List.flatMap_nil, List.append_nil, scanBitrate_absent hrest]
    cases e.shown <;> rfl
  | cons e' later ih =>
    have hmem : ∀ x ∈ e' :: later, x ∈ e :: e' :: later := fun x hx => List.mem_cons_of_mem e hx
    have htext : elementsText (e' :: later) = 60 :: (e'.body ++ elementsText later) := rfl
    have he' : e'.WellFormed := hwf e' (hmem e' List.mem_cons_self)
    have hplain' : e'.Plain := hplain e' (hmem e' List.mem_cons_self)
    rw [htext, scanBitrate_skip (by decide) hrest, scanBitrate_element he' hplain',
      ih (fun x hx => hwf x (hmem x hx)) (fun x hx => hplain x (hmem x hx)) hplain'.rest, List.findSome?_cons]
    cases e.shown <;> rfl

/-- What the elements add to the list of a plain manifest. -/
def announced : List Element → List (Option Int)
  | [] => []
  | e :: later => if e.Scanned then (e :: later).findSome? Element.shown :: announced later else announced later

lemma mediaLog_plain {elements : List Element} (hwf : ∀ e ∈ elements, e.WellFormed) (hplain : ∀ e ∈ elements, e.Plain) :
    mediaLog (elementsText elements) = some (announced elements) := by
  induction elements with
  | nil => rfl
  | cons e later ih =>
    have hlater := ih (fun x hx => hwf x (List.mem_cons_of_mem e hx)) fun x hx => hplain x (List.mem_cons_of_mem e hx)
    rw [mediaLog_cons (hwf e List.mem_cons_self), hlater, scanBitrate_plain hwf hplain, announced]
    split
    · rfl
    · rfl

lemma shown_of_bitrate {e : Element} {v : Int} (h : e.bitrate = some v) : e.shown = some v := by
  unfold Element.bitrate at h
  split at h
  · exact h
  · cases h

/-- Each element with a bitrate adds it. -/
lemma length_bitrates_le (elements : List Element) :
    (elements.filterMap Element.bitrate).length ≤ (announced elements).reduceOption.length := by
  induction elements with
  | nil => exact le_rfl
  | cons e later ih =>
    cases hb : e.bitrate with
    | none =>
      rw [List.filterMap_cons_none hb, announced]
      split
      · cases (e :: later).findSome? Element.shown with
        | none => rwa [List.reduceOption_cons_of_none]
        | some v =>
          rw [List.reduceOption_cons_of_some, List.length_cons]
          omega
      · exact ih
    | some v =>
      rw [List.filterMap_cons_some hb, announced, if_pos (scanned_of_bitrate hb), List.findSome?_cons,
        shown_of_bitrate hb, List.reduceOption_cons_of_some, List.length_cons, List.length_cons]
      exact Nat.succ_le_succ ih

lemma noBareMedia_cons (e : Element) (later : List Element) :
    NoBareMedia (e :: later) ↔ (e.Scanned → e.bitrate = none → ∀ e' ∈ e :: later, e'.shown = none) ∧ NoBareMedia later :=
  forall_split_cons (P := fun (e : Element) later => e.Scanned → e.bitrate = none → ∀ e' ∈ e :: later, e'.shown = none) e later

/-- Where an element without a bitrate adds one, there are more numbers than bitrates. -/
lemma noBareMedia_of_length {elements : List Element}
    (h : (announced elements).reduceOption.length = (elements.filterMap Element.bitrate).length) : NoBareMedia elements := by
  induction elements with
  | nil =>
    intro before e later heq
    simp at heq
  | cons e later ih =>
    rw [noBareMedia_cons]
    have hle := length_bitrates_le later
    cases hb : e.bitrate with
    | none =>
      rw [List.filterMap_cons_none hb, announced] at h
      by_cases hscanned : e.Scanned
      · rw [if_pos hscanned] at h
        cases hfound : (e :: later).findSome? Element.shown with
        | none =>
          rw [hfound, List.reduceOption_cons_of_none] at h
          exact ⟨fun _ _ => List.findSome?_eq_none_iff.mp hfound, ih h⟩
        | some v =>
          rw [hfound, List.reduceOption_cons_of_some, List.length_cons] at h
          omega
      · rw [if_neg hscanned] at h
        exact ⟨fun hs => absurd hs hscanned, ih h⟩
    | some v =>
      rw [List.filterMap_cons_some hb, announced, if_pos (scanned_of_bitrate hb), List.findSome?_cons,
        shown_of_bitrate hb, List.reduceOption_cons_of_some, List.length_cons, List.length_cons] at h
      refine ⟨fun _ hnone => ?_, ih (Nat.succ.inj h)⟩
      cases hnone

lemma NoBareMedia.announced_eq {elements : List Element} (h : NoBareMedia elements) :
    (announced elements).reduceOption = elements.filterMap Element.bitrate := by
  induction elements with
  | nil => rfl
  | cons e later ih =>
    obtain ⟨hhere, hlater⟩ := (noBareMedia_cons e later).mp h
    cases hb : e.bitrate with
    | none =>
      rw [List.filterMap_cons_none hb, announced, ← ih hlater]
      split
      · rename_i hscanned
        rw [List.findSome?_eq_none_iff.mpr (hhere hscanned hb), List.reduceOption_cons_of_none]
      · rfl
    | some v =>
      rw [List.filterMap_cons_some hb, announced, if_pos (scanned_of_bitrate hb), List.findSome?_cons,
        shown_of_bitrate hb, List.reduceOption_cons_of_some, ih hlater]

/-- Each element adds its own bitrate exactly when behind each `<media` the first `bitrate=` announces
it. In a plain manifest the list is that of the bitrates exactly when no element with a bitrate comes
behind a `<media` without one. -/
theorem manifest_bitrates_iff {buf : List UInt8} {m : Manifest} (hbuf : cstr buf = m.text) :
    (ReadsBitrates buf m ↔ ∀ before e later, m.elements = before ++ e :: later → e.Scanned →
      Announces (e.body ++ elementsText later) e.bitrate) ∧
    ((∀ e ∈ m.elements, e.Plain) →
      ((∃ list, parseXmlToList buf = some list ∧ list.Perm m.bitrates) ↔ NoBareMedia m.elements)) := by
  refine ⟨readsBitrates_iff hbuf, fun hplain => ?_⟩
  have hparse := parseXmlToList_manifest hbuf
  rw [mediaLog_text, mediaLog_plain m.wellFormed hplain, Option.map_some] at hparse
  have hperm := insertAll_perm (announced m.elements) []
  rw [List.append_nil] at hperm
  constructor
  · rintro ⟨list, hlist, hbitrates⟩
    obtain rfl := Option.some.inj (hparse.symm.trans hlist)
    exact noBareMedia_of_length (hperm.symm.trans hbitrates).length_eq
  · intro hbare
    rw [hbare.announced_eq] at hperm
    exact ⟨_, hparse, hperm⟩

section Example

/-- `<media name="value"/>` -/
def mediaElement (name value : List UInt8) : Element := ⟨bytes "media", [⟨[32], name, [61], 34, value⟩], bytes "/>"⟩

lemma mediaElement_wellFormed {name value : List UInt8} (hname : IsXmlName name) (hquote : 34 ∉ value)
    (hnoTag : 60 ∉ (mediaElement name value).body) (hstring : IsString (mediaElement name value).body)
    (hnumber : name = bytes "bitrate" → IsNumber value) : (mediaElement name value).WellFormed := by
  have hmedia : IsXmlName (bytes "media") := by decide
  have hblank : IsBlanks [32] := by decide
  have hnil : IsBlanks [] := by decide
  constructor
  · exact hmedia
  · intro a ha
    obtain rfl := List.mem_singleton.mp ha
    exact ⟨⟨List.cons_ne_nil _ _, hblank⟩, hname, ⟨[], [], rfl, hnil, hnil⟩, Or.inl rfl, hquote⟩
  · exact List.nodup_singleton _
  · exact ⟨47, [62], rfl, Or.inr (Or.inl rfl)⟩
  · exact hnoTag
  · exact hstring
  · intro _ a ha
    have hmem := List.mem_singleton.mp (List.mem_of_find?_eq_some ha)
    have hfound := List.find?_some ha
    rw [hmem] at hfound ⊢
    exact hnumber (of_decide_eq_true hfound)

lemma mediaElement_plain {name value : List UInt8} (hnumber : name = bytes "bitrate" → IsNumber value)
    (hother : name ≠ bytes "bitrate" → ¬bytes "bitrate=" <:+: (⟨[32], name, [61], 34, value⟩ : Attribute).text) :
    (mediaElement name value).Plain := by
  constructor
  · intro a ha hname
    obtain rfl := List.mem_singleton.mp ha
    exact ⟨rfl, rfl, hnumber hname⟩
  · intro a ha hname
    obtain rfl := List.mem_singleton.mp ha
    exact hother hname
  · have hrest : ¬bytes "bitrate=" <:+: bytes "/>" := by decide
    exact hrest

lemma url_wellFormed : (mediaElement (bytes "url") (bytes "a")).WellFormed :=
  mediaElement_wellFormed (by decide) (by decide) (by decide) (by decide) (by decide)

lemma bitrate_wellFormed : (mediaElement (bytes "bitrate") (bytes "500")).WellFormed :=
  mediaElement_wellFormed (by decide) (by decide) (by decide) (by decide) (by decide)

/-- A manifest with these two elements. -/
def twoElements (e e' : Element) (h : ∀ x ∈ [e, e'], x.WellFormed) : Manifest where
  declaration := bytes " version=\"1.0\"?>"
  elements := [e, e']
  declaration_noTag := by decide
  declaration_isString := by decide
  wellFormed := h

lemma both_wellFormed {x : Element}
    (h : x = mediaElement (bytes "url") (bytes "a") ∨ x = mediaElement (bytes "bitrate") (bytes "500")) :
    x.WellFormed := by
  rcases h with rfl | rfl
  · exact url_wellFormed
  · exact bitrate_wellFormed

def bitrateFirst : Manifest :=
  twoElements (mediaElement (bytes "bitrate") (bytes "500")) (mediaElement (bytes "url") (bytes "a"))
    fun x hx => both_wellFormed (by simpa [or_comm] using hx)

def urlFirst : Manifest :=
  twoElements (mediaElement (bytes "url") (bytes "a")) (mediaElement (bytes "bitrate") (bytes "500"))
    fun x hx => both_wellFormed (by simpa using hx)

lemma noBareMedia_bitrateFirst : NoBareMedia bitrateFirst.elements := by
  have hshown : (mediaElement (bytes "url") (bytes "a")).shown = none := by decide
  have hbitrate : (mediaElement (bytes "bitrate") (bytes "500")).bitrate ≠ none := by decide
  have hnil : NoBareMedia [] := by
    intro before e later heq
    simp at heq
  change NoBareMedia [_, _]
  rw [noBareMedia_cons, noBareMedia_cons]
  refine ⟨fun _ h => absurd h hbitrate, fun _ _ e he => ?_, hnil⟩
  rw [List.mem_singleton.mp he]
  exact hshown

lemma plain_bitrateFirst : ∀ e ∈ bitrateFirst.elements, e.Plain := by
  intro e he
  rcases List.mem_pair.mp he with rfl | rfl
  · exact mediaElement_plain (by decide) (by decide)
  · exact mediaElement_plain (by decide) (by decide)

theorem manifest_bitrates_iff_first :
    ∃ list, parseXmlToList bitrateFirst.text = some list ∧ list.Perm [500] := by
  have hbuf : cstr bitrateFirst.text = bitrateFirst.text := by decide +kernel
  obtain ⟨-, hplain⟩ := manifest_bitrates_iff hbuf
  exact (hplain plain_bitrateFirst).mpr noBareMedia_bitrateFirst

/-- The element without a bitrate gets that of the next one. -/
theorem next_bitrate_taken :
    ¬∀ (buf : List UInt8) (m : Manifest), cstr buf = m.text →
      ∃ list, parseXmlToList buf = some list ∧ list.Perm m.bitrates := by
  intro h
  obtain ⟨list, hlist, hperm⟩ := h urlFirst.text urlFirst (by decide +kernel)
  have hactual : parseXmlToList urlFirst.text = some [500, 500] := by decide +kernel
  obtain rfl := Option.some.inj (hlist.symm.trans hactual)
  have hbitrates : urlFirst.bitrates = [500] := by decide
  rw [hbitrates] at hperm
  exact absurd hperm.length_eq (by decide)

end Example

end VideoCDN.Proxy
