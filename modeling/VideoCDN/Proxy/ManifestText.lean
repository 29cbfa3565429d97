import VideoCDN.Proxy.MediaLog

/-!
# Manifests

A manifest is a prolog and a sequence of tags with the text behind them. The loop of
`parse_xml_to_list` stops at the tags whose name starts with `media`.
-/

namespace VideoCDN.Proxy

open CString Nameserver

/-- The text `front name equals "value"`, with either kind of quote. -/
structure Attribute where
  front : List UInt8
  name : List UInt8
  equals : List UInt8
  quote : UInt8
  value : List UInt8

def Attribute.text (a : Attribute) : List UInt8 :=
  a.front ++ (a.name ++ (a.equals ++ a.quote :: (a.value ++ [a.quote])))

def IsBlanks (s : List UInt8) : Prop := ∀ b ∈ s, isspace b = true

instance (s : List UInt8) : Decidable (IsBlanks s) := List.decidableBAll (fun b => isspace b = true) s

/-- Not a blank, an equals sign or a quote. -/
def IsXmlNameByte (b : UInt8) : Prop := isspace b = false ∧ b ≠ 61 ∧ b ≠ 34 ∧ b ≠ 39

instance (b : UInt8) : Decidable (IsXmlNameByte b) := inferInstanceAs (Decidable (_ ∧ _))

def IsXmlName (s : List UInt8) : Prop := s ≠ [] ∧ ∀ b ∈ s, IsXmlNameByte b

instance (s : List UInt8) : Decidable (IsXmlName s) :=
  haveI := List.decidableBAll IsXmlNameByte s
  inferInstanceAs (Decidable (_ ∧ _))

structure Attribute.WellFormed (a : Attribute) : Prop where
  front : a.front ≠ [] ∧ IsBlanks a.front
  name : IsXmlName a.name
  equals : ∃ before after, a.equals = before ++ 61 :: after ∧ IsBlanks before ∧ IsBlanks after
  quote : (a.quote = 34 ∨ a.quote = 39) ∧ a.quote ∉ a.value

/-- A tag, with the text behind it: `rest` is the end of the tag and what follows it. -/
structure Element where
  name : List UInt8
  attributes : List Attribute
  rest : List UInt8

namespace Element

variable (e : Element)

/-- The text behind the `<`. -/
def body : List UInt8 := e.name ++ (e.attributes.flatMap Attribute.text ++ e.rest)

/-- The bitrate attribute. -/
def bitrateAttribute : Option Attribute := e.attributes.find? (·.name = bytes "bitrate")

/-- The number in the bitrate attribute. -/
def shown : Option Int := e.bitrateAttribute.map fun a => (digitsVal a.value : Int)

/-- The bitrate of a `<media` element. -/
def bitrate : Option Int := if e.name = bytes "media" then e.shown else none

end Element

/-- The decimal digits of an `int`. -/
def IsNumber (s : List UInt8) : Prop := s ≠ [] ∧ (∀ b ∈ s, isdigit b = true) ∧ digitsVal s < 2 ^ 31

instance (s : List UInt8) : Decidable (IsNumber s) :=
  haveI := List.decidableBAll (fun b => isdigit b = true) s
  inferInstanceAs (Decidable (_ ∧ _ ∧ _))

/-- A `<` only starts a tag, a name is written once in a tag, and the bitrate of a `<media` element is
a number. -/
structure Element.WellFormed (e : Element) : Prop where
  name : IsXmlName e.name
  attributes : ∀ a ∈ e.attributes, a.WellFormed
  once : (e.attributes.map Attribute.name).Nodup
  rest : ∃ b after, e.rest = b :: after ∧ (isspace b = true ∨ b = 47 ∨ b = 62)
  noTag : 60 ∉ e.body
  isString : IsString e.body
  number : e.name = bytes "media" → ∀ a ∈ e.bitrateAttribute, IsNumber a.value

/-- A prolog without further tags, and the elements. End tags are elements too. -/
structure Manifest where
  declaration : List UInt8
  elements : List Element
  declaration_noTag : 60 ∉ declaration
  declaration_isString : IsString declaration
  wellFormed : ∀ e ∈ elements, e.WellFormed

/-- The text of the elements. -/
def elementsText (elements : List Element) : List UInt8 := elements.flatMap fun e => 60 :: e.body

namespace Manifest

variable (m : Manifest)

def text : List UInt8 := bytes "<?xml" ++ (m.declaration ++ elementsText m.elements)

/-- The bitrates of the `<media` elements. -/
def bitrates : List Int := m.elements.filterMap Element.bitrate

end Manifest

/-- The loop stops at the element. -/
def Element.Scanned (e : Element) : Prop := bytes "media" <+: e.body

instance (e : Element) : Decidable e.Scanned := inferInstanceAs (Decidable (_ <+: _))

/-- The list is that of the bitrates, and each element adds its own bitrate or nothing. -/
def ReadsBitrates (buf : List UInt8) (m : Manifest) : Prop :=
  ∃ list, parseXmlToList buf = some list ∧ list.Perm m.bitrates ∧
    mediaLog m.text = some ((m.elements.filter Element.Scanned).map Element.bitrate)

/-! ## The log of a manifest -/

lemma media_prefix_iff (e : Element) (later : List Element) :
    bytes "<media" <+: 60 :: (e.body ++ elementsText later) ↔ e.Scanned := by
  have hneedle : bytes "<media" = 60 :: bytes "media" := by decide
  rw [hneedle, List.cons_prefix_cons, Element.Scanned]
  constructor
  · rintro ⟨-, h⟩
    cases later with
    | nil => rwa [elementsText, List.flatMap_nil, List.append_nil] at h
    | cons e' later => exact prefix_of_prefix_append_cons (by decide) h
  · intro h
    exact ⟨rfl, h.trans (List.prefix_append _ _)⟩

/-- Each element the loop stops at adds what is read behind its `<`. -/
lemma mediaLog_cons {e : Element} (he : e.WellFormed) (later : List Element) :
    mediaLog (elementsText (e :: later)) =
      if e.Scanned then do
        let bitrate ← scanBitrate (e.body ++ elementsText later)
        let log ← mediaLog (elementsText later)
        return bitrate :: log
      else mediaLog (elementsText later) := by
  have hskip := mediaLog_skip he.noTag (elementsText later)
  have htext : elementsText (e :: later) = 60 :: (e.body ++ elementsText later) := rfl
  rw [htext, mediaLog, hskip]
  by_cases h : e.Scanned
  · rw [if_pos ((media_prefix_iff e later).mpr h), if_pos h]
  · rw [if_neg fun hmedia => h ((media_prefix_iff e later).mp hmedia), if_neg h]

lemma forall_split_cons {α : Type} {P : α → List α → Prop} (x : α) (xs : List α) :
    (∀ before y later, x :: xs = before ++ y :: later → P y later) ↔
      P x xs ∧ ∀ before y later, xs = before ++ y :: later → P y later := by
  constructor
  · intro h
    refine ⟨h [] x xs rfl, fun before y later heq => h (x :: before) y later ?_⟩
    rw [heq, List.cons_append]
  · rintro ⟨hx, hxs⟩ before y later heq
    cases before with
    | nil =>
      obtain ⟨rfl, rfl⟩ := List.cons.inj heq
      exact hx
    | cons b before => exact hxs before y later (List.cons.inj heq).2

/-- The log is that of the elements' own bitrates when behind each it is the own one that is read. -/
lemma mediaLog_own_iff {elements : List Element} (hwf : ∀ e ∈ elements, e.WellFormed) :
    mediaLog (elementsText elements) = some ((elements.filter Element.Scanned).map Element.bitrate) ↔
      ∀ before e later, elements = before ++ e :: later → e.Scanned →
        Announces (e.body ++ elementsText later) e.bitrate := by
  induction elements with
  | nil =>
    constructor
    · intro _ before e later h
      simp at h
    · intro _
      rfl
  | cons e elements ih =>
    rw [mediaLog_cons (hwf e List.mem_cons_self), forall_split_cons, ← ih fun e' he' => hwf e' (List.mem_cons_of_mem e he')]
    by_cases h : e.Scanned
    · have hfilter : (e :: elements).filter Element.Scanned = e :: elements.filter Element.Scanned :=
        List.filter_cons_of_pos (by simpa using h)
      rw [if_pos h, hfilter, List.map_cons, ← scanBitrate_eq_iff]
      simp only [h, forall_const, Option.bind_eq_bind, Option.bind_eq_some_iff, Option.pure_def, Option.some.injEq,
        List.cons.injEq]
      constructor
      · rintro ⟨bitrate, hscan, log, hlog, rfl, rfl⟩
        exact ⟨hscan, hlog⟩
      · rintro ⟨hscan, hlog⟩
        exact ⟨_, hscan, _, hlog, rfl, rfl⟩
    · have hfilter : (e :: elements).filter Element.Scanned = elements.filter Element.Scanned :=
        List.filter_cons_of_neg (by simpa using h)
      rw [if_neg h, hfilter]
      simp only [h, false_imp_iff, true_and]

lemma mediaLog_text (m : Manifest) : mediaLog m.text = mediaLog (elementsText m.elements) := by
  have hno : 60 ∉ bytes "?xml" ++ m.declaration := by
    intro h
    rcases List.mem_append.mp h with h | h
    · exact absurd h (by decide)
    · exact m.declaration_noTag h
  have htext : m.text = 60 :: (bytes "?xml" ++ m.declaration ++ elementsText m.elements) := by
    rw [Manifest.text, List.append_assoc]
    rfl
  have hprolog : ¬bytes "<media" <+: 60 :: (bytes "?xml" ++ m.declaration ++ elementsText m.elements) := by
    intro h
    have hhead : (109 : UInt8) = 63 := (List.cons_prefix_cons.mp (List.cons_prefix_cons.mp h).2).1
    exact absurd hhead (by decide)
  rw [htext, mediaLog, if_neg hprolog, mediaLog_skip hno]

/-- The parsed list is made of what the log has. -/
lemma parseXmlToList_manifest {buf : List UInt8} {m : Manifest} (hbuf : cstr buf = m.text) :
    parseXmlToList buf = (mediaLog m.text).map fun log => insertAll log [] := by
  have hprolog : strstr (bytes "<?xml") m.text = some 0 :=
    strstr_append [] (bytes "<?xml") _ fun j hj => absurd hj (Nat.not_lt_zero j)
  rw [parseXmlToList, hbuf]
  simp only [hprolog, List.drop_zero, mediaLoop_eq]

/-- Only `<media` elements have a bitrate, and the loop stops at them. -/
lemma scanned_of_bitrate {e : Element} {v : Int} (h : e.bitrate = some v) : e.Scanned := by
  unfold Element.bitrate at h
  split at h
  · rename_i hname
    rw [Element.Scanned, Element.body, hname]
    exact List.prefix_append _ _
  · cases h

lemma reduceOption_own (elements : List Element) :
    ((elements.filter Element.Scanned).map Element.bitrate).reduceOption = elements.filterMap Element.bitrate := by
  induction elements with
  | nil => rfl
  | cons e elements ih =>
    cases hb : e.bitrate with
    | none =>
      rw [List.filterMap_cons_none hb, ← ih]
      by_cases h : e.Scanned
      · rw [List.filter_cons_of_pos (by simpa using h), List.map_cons, hb, List.reduceOption_cons_of_none]
      · rw [List.filter_cons_of_neg (by simpa using h)]
    | some v =>
      have h := scanned_of_bitrate hb
      rw [List.filterMap_cons_some hb, ← ih, List.filter_cons_of_pos (by simpa using h), List.map_cons, hb,
        List.reduceOption_cons_of_some]

/-- Each element adds its own bitrate exactly when behind each it is the own one that is read. -/
lemma readsBitrates_iff {buf : List UInt8} {m : Manifest} (hbuf : cstr buf = m.text) :
    ReadsBitrates buf m ↔ ∀ before e later, m.elements = before ++ e :: later → e.Scanned →
      Announces (e.body ++ elementsText later) e.bitrate := by
  rw [← mediaLog_own_iff m.wellFormed, ← mediaLog_text]
  constructor
  · rintro ⟨list, -, -, hlog⟩
    exact hlog
  · intro hlog
    refine ⟨_, by rw [parseXmlToList_manifest hbuf, hlog, Option.map_some], ?_, hlog⟩
    apply (insertAll_perm _ _).trans
    rw [List.append_nil, reduceOption_own]
    exact List.Perm.refl _

end VideoCDN.Proxy
