import Mathlib.Data.List.ReduceOption
import VideoCDN.Nameserver.LsaFile
import VideoCDN.Proxy.BitrateChoice

/-!
# What each `<media` adds to the list

The loop of `parse_xml_to_list` searches the whole rest of the document for a bitrate, once for each
`<media`. So what one adds does not depend on what the others did.
-/

namespace VideoCDN.Proxy

open CString Nameserver

/-- What the occurrences of `<media` add to the list, in their order. -/
def mediaLog : List UInt8 → Option (List (Option Int))
  | [] => some []
  | c :: pt =>
    if bytes "<media" <+: c :: pt then do
      let bitrate ← scanBitrate pt
      let log ← mediaLog pt
      return bitrate :: log
    else mediaLog pt

/-- The list after the additions. -/
def insertAll (log : List (Option Int)) (head : List Int) : List Int :=
  log.reduceOption.foldl (fun list bitrate => sortedInsertBitrate bitrate list) head

/-- The loop keeps the log. -/
lemma mediaLoop_eq (pt : List UInt8) (head : List Int) :
    mediaLoop pt head = (mediaLog pt).map fun log => insertAll log head := by
  induction pt generalizing head with
  | nil => rfl
  | cons c pt ih =>
    rw [mediaLoop, mediaLog]
    by_cases hmedia : bytes "<media" <+: c :: pt
    · rw [if_pos hmedia, if_pos hmedia]
      cases scanBitrate pt with
      | none => rfl
      | some bitrate =>
        cases hlog : mediaLog pt with
        | none => cases bitrate <;> simp [ih, hlog]
        | some log =>
          cases bitrate <;>
            simp [ih, hlog, insertAll, List.reduceOption_cons_of_some, List.reduceOption_cons_of_none]
    · rw [if_neg hmedia, if_neg hmedia]
      exact ih head

lemma insertAll_perm (log : List (Option Int)) (head : List Int) :
    (insertAll log head).Perm (log.reduceOption ++ head) := by
  unfold insertAll
  induction log.reduceOption generalizing head with
  | nil => exact List.Perm.refl head
  | cons bitrate list ih =>
    rw [List.foldl_cons]
    apply (ih _).trans
    rw [sortedInsertBitrate_eq]
    exact ((List.perm_orderedInsert _ bitrate head).append_left list).trans List.perm_middle

/-- Text without a `<` adds nothing. -/
lemma mediaLog_skip {pre : List UInt8} (h : 60 ∉ pre) (pt : List UInt8) : mediaLog (pre ++ pt) = mediaLog pt := by
  induction pre with
  | nil => rfl
  | cons c pre ih =>
    have hc : ¬bytes "<media" <+: c :: (pre ++ pt) := by
      intro hmedia
      have hhead : 60 = c := (List.cons_prefix_cons.mp hmedia).1
      exact h (hhead ▸ List.mem_cons_self)
    rw [List.cons_append, mediaLog, if_neg hc]
    exact ih fun hmem => h (List.mem_cons_of_mem c hmem)

/-! ## The number behind a `bitrate=` -/

/-- The first `bitrate=` of the text is followed by the number in double quotes; where there is none,
by no number in double quotes, if it is there. -/
def Announces (t : List UInt8) : Option Int → Prop
  | some v => ∃ pre rest, t = pre ++ bytes "bitrate=" ++ 34 :: rest ∧
      (∀ j < pre.length, ¬bytes "bitrate=" <+: t.drop j) ∧ ∃ after, scanInt rest = some (some (v, after))
  | none => ∀ pre rest, t = pre ++ bytes "bitrate=" ++ 34 :: rest →
      (∀ j < pre.length, ¬bytes "bitrate=" <+: t.drop j) → scanInt rest = some none

lemma scanBitrate_first {pre rest : List UInt8}
    (h : ∀ j < pre.length, ¬bytes "bitrate=" <+: (pre ++ bytes "bitrate=" ++ rest).drop j) :
    scanBitrate (pre ++ bytes "bitrate=" ++ rest) =
      if rest.head? = some 34 then (scanInt rest.tail).map fun n => n.map Prod.fst else some none := by
  have hdrop : (pre ++ bytes "bitrate=" ++ rest).drop (pre.length + 8) = rest := by
    have hlength : pre.length + 8 = (pre ++ bytes "bitrate=").length := by rw [List.length_append]; rfl
    rw [hlength, List.drop_left]
  rw [scanBitrate, strstr_append _ _ _ h]
  simp only [hdrop]

lemma scanBitrate_absent {t : List UInt8} (h : ¬bytes "bitrate=" <:+: t) : scanBitrate t = some none := by
  rw [scanBitrate, (strstr_eq_none_iff _ _).mpr h]

lemma announces_absent {t : List UInt8} (h : ¬bytes "bitrate=" <:+: t) (own : Option Int) :
    Announces t own ↔ own = none := by
  have hno : ∀ pre rest, t ≠ pre ++ bytes "bitrate=" ++ 34 :: rest := by
    rintro pre rest rfl
    exact h ⟨pre, 34 :: rest, rfl⟩
  cases own with
  | none =>
    simp only [iff_true]
    intro pre rest ht
    exact absurd ht (hno pre rest)
  | some v =>
    simp only [reduceCtorEq, iff_false]
    rintro ⟨pre, rest, ht, -⟩
    exact hno pre rest ht

/-- What is read behind the first `bitrate=`. -/
lemma scanBitrate_eq_iff (t : List UInt8) (own : Option Int) : scanBitrate t = some own ↔ Announces t own := by
  by_cases hin : bytes "bitrate=" <:+: t
  · obtain ⟨pre, rest, rfl, hfirst⟩ := exists_first_occurrence hin
    rw [scanBitrate_first hfirst]
    cases own with
    | none =>
      constructor
      · intro h pre' rest' heq hfirst'
        obtain ⟨rfl, rfl⟩ := first_occurrence_unique hfirst hfirst' heq
        rw [List.head?_cons, if_pos rfl, List.tail_cons, Option.map_eq_some_iff] at h
        obtain ⟨n, hn, hnone⟩ := h
        rw [hn, Option.map_eq_none_iff.mp hnone]
      · intro h
        split
        · rename_i hquote
          obtain ⟨rest, rfl⟩ := List.head?_eq_some_iff.mp hquote
          rw [List.tail_cons, h pre rest rfl hfirst]
          rfl
        · rfl
    | some v =>
      constructor
      · intro h
        split at h
        · rename_i hquote
          obtain ⟨rest, rfl⟩ := List.head?_eq_some_iff.mp hquote
          rw [List.tail_cons, Option.map_eq_some_iff] at h
          obtain ⟨n, hn, hsome⟩ := h
          obtain ⟨⟨w, after⟩, rfl, rfl⟩ := Option.map_eq_some_iff.mp hsome
          exact ⟨pre, rest, rfl, hfirst, after, hn⟩
        · cases h
      · rintro ⟨pre', rest', heq, hfirst', after, hn⟩
        obtain ⟨rfl, rfl⟩ := first_occurrence_unique hfirst hfirst' heq
        rw [List.head?_cons, if_pos rfl, List.tail_cons, hn]
        rfl
  · rw [scanBitrate_absent hin, announces_absent hin, Option.some.injEq, eq_comm]

end VideoCDN.Proxy
