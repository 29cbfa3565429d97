import Mathlib.Data.List.Sort
import VideoCDN.Proxy.Bitrate

/-!
# The choice of a bitrate

The bitrates of a manifest are inserted one by one at their place, so the list is in ascending
order and the walk that stops at the first bitrate above the bound has passed the greatest one
below it.
-/

namespace VideoCDN.Proxy

open CString

/-- The throughput affords the bitrate. -/
def Affordable (tpt : Nat) (bitrate : Int) : Prop := 3 * bitrate ≤ 2 * tpt

/-- The greatest affordable bitrate of the list, or the least one where none is affordable. -/
def IsChoice (list : List Int) (tpt : Nat) (choice : Int) : Prop :=
  choice ∈ list ∧
    ((Affordable tpt choice ∧ ∀ b ∈ list, Affordable tpt b → b ≤ choice) ∨
      ((∀ b ∈ list, ¬Affordable tpt b) ∧ ∀ b ∈ list, choice ≤ b))

lemma Affordable.of_le {tpt : Nat} {a b : Int} (hb : Affordable tpt b) (h : a ≤ b) : Affordable tpt a := by
  unfold Affordable at hb ⊢
  omega

lemma Affordable.mono {tpt tpt' : Nat} (h : tpt ≤ tpt') {b : Int} (hb : Affordable tpt b) :
    Affordable tpt' b := by
  unfold Affordable at hb ⊢
  omega

lemma IsChoice.mono {list : List Int} {tpt tpt' : Nat} (h : tpt ≤ tpt') {b b' : Int}
    (hb : IsChoice list tpt b) (hb' : IsChoice list tpt' b') : b ≤ b' := by
  obtain ⟨hmem, hchoice⟩ := hb
  obtain ⟨hmem', hchoice'⟩ := hb'
  rcases hchoice with ⟨hafford, -⟩ | ⟨-, hleast⟩
  · rcases hchoice' with ⟨-, hgreatest⟩ | ⟨hnone, -⟩
    · exact hgreatest b hmem (hafford.mono h)
    · exact absurd (hafford.mono h) (hnone b hmem)
  · exact hleast b' hmem'

lemma IsChoice.unique {list : List Int} {tpt : Nat} {b b' : Int} (hb : IsChoice list tpt b)
    (hb' : IsChoice list tpt b') : b = b' :=
  le_antisymm (hb.mono le_rfl hb') (hb'.mono le_rfl hb)

/-! ## The list of a manifest -/

lemma sortedInsertBitrate_eq (bitrateNum : Int) (list : List Int) :
    sortedInsertBitrate bitrateNum list = list.orderedInsert (· ≤ ·) bitrateNum := by
  induction list with
  | nil => rfl
  | cons bitrate pt ih =>
    rw [sortedInsertBitrate, List.orderedInsert_cons, ih]
    by_cases h : bitrate < bitrateNum
    · rw [if_pos h, if_neg (not_le.mpr h)]
    · rw [if_neg h, if_pos (not_lt.mp h)]

lemma sortedInsertBitrate_sorted (bitrateNum : Int) {list : List Int} (h : list.Pairwise (· ≤ ·)) :
    (sortedInsertBitrate bitrateNum list).Pairwise (· ≤ ·) := by
  rw [sortedInsertBitrate_eq]
  exact h.orderedInsert bitrateNum list

lemma mediaLoop_sorted {pt : List UInt8} {head list : List Int} (hhead : head.Pairwise (· ≤ ·))
    (h : mediaLoop pt head = some list) : list.Pairwise (· ≤ ·) := by
  induction pt generalizing head with
  | nil =>
    obtain rfl := Option.some.inj h
    exact hhead
  | cons c pt ih =>
    rw [mediaLoop] at h
    split at h
    · obtain ⟨bitrate, -, h⟩ := Option.bind_eq_some_iff.mp h
      cases bitrate with
      | none => exact ih hhead h
      | some bitrate => exact ih (sortedInsertBitrate_sorted bitrate hhead) h
    · exact ih hhead h

/-- The bitrates of a manifest are in ascending order. -/
theorem parseXmlToList_sorted {buf : List UInt8} {list : List Int} (h : parseXmlToList buf = some list) :
    list.Pairwise (· ≤ ·) := by
  unfold parseXmlToList at h
  split at h
  · obtain rfl := Option.some.inj h
    exact List.Pairwise.nil
  · exact mediaLoop_sorted List.Pairwise.nil h

/-! ## The walk -/

/-- The walk ends with the greatest affordable bitrate of the rest, or with the one passed last. -/
lemma selectLoop_spec (tpt : Nat) {list : List Int} (hsorted : list.Pairwise (· ≤ ·)) (pre : Option Int) :
    (selectLoop tpt list pre = pre ∧ ∀ b ∈ list, ¬Affordable tpt b) ∨
      ∃ b ∈ list, selectLoop tpt list pre = some b ∧ Affordable tpt b ∧
        ∀ c ∈ list, Affordable tpt c → c ≤ b := by
  induction list generalizing pre with
  | nil => exact Or.inl ⟨rfl, by simp⟩
  | cons bitrate pt ih =>
    obtain ⟨hleast, hpt⟩ := List.pairwise_cons.mp hsorted
    by_cases hafford : Affordable tpt bitrate
    · have hstep : selectLoop tpt (bitrate :: pt) pre = selectLoop tpt pt (some bitrate) := if_pos hafford
      rw [hstep]
      right
      rcases ih hpt (some bitrate) with ⟨hend, hnone⟩ | ⟨b, hb, hend, hb', hgreatest⟩
      · refine ⟨bitrate, List.mem_cons_self, hend, hafford, fun c hc hc' => ?_⟩
        rcases List.mem_cons.mp hc with rfl | hc
        · exact le_rfl
        · exact absurd hc' (hnone c hc)
      · refine ⟨b, List.mem_cons_of_mem _ hb, hend, hb', fun c hc hc' => ?_⟩
        rcases List.mem_cons.mp hc with rfl | hc
        · exact hleast b hb
        · exact hgreatest c hc hc'
    · left
      refine ⟨if_neg hafford, fun b hb hb' => hafford ?_⟩
      rcases List.mem_cons.mp hb with rfl | hb
      · exact hb'
      · exact hb'.of_le (hleast b hb)

/-- On a sorted list the walk makes the choice. -/
lemma selectBitrate_spec (tpt : Nat) {list : List Int} (hsorted : list.Pairwise (· ≤ ·)) (hne : list ≠ []) :
    ∃ b, selectBitrate list tpt = some b ∧ IsChoice list tpt b := by
  rcases selectLoop_spec tpt hsorted none with ⟨hend, hnone⟩ | ⟨b, hb, hend, hafford, hgreatest⟩
  · obtain ⟨b, pt, rfl⟩ := List.exists_cons_of_ne_nil hne
    refine ⟨b, by rw [selectBitrate, hend]; rfl, List.mem_cons_self, Or.inr ⟨hnone, fun c hc => ?_⟩⟩
    rcases List.mem_cons.mp hc with rfl | hc
    · exact le_rfl
    · exact (List.pairwise_cons.mp hsorted).1 c hc
  · exact ⟨b, by rw [selectBitrate, hend], hb, Or.inl ⟨hafford, hgreatest⟩⟩

/-- The bitrates of a manifest are in ascending order, the choice among them and among their copy is
the greatest affordable one, or the least, and it grows with the throughput. -/
theorem manifest_bitrate_choice (buf : List UInt8) (list : List Int) (hparse : parseXmlToList buf = some list)
    (hne : list ≠ []) :
    list.Pairwise (· ≤ ·) ∧
      (∀ tpt, ∃ b, selectBitrate list tpt = some b ∧ selectBitrate (dupBitrateList list) tpt = some b ∧
        IsChoice list tpt b) ∧
      ∀ tpt tpt' b b', tpt ≤ tpt' → selectBitrate list tpt = some b → selectBitrate list tpt' = some b' → b ≤ b' := by
  have hsorted := parseXmlToList_sorted hparse
  have hchoice := fun tpt => selectBitrate_spec tpt hsorted hne
  refine ⟨hsorted, fun tpt => ?_, fun tpt tpt' b b' hle hb hb' => ?_⟩
  · obtain ⟨b, hb, hspec⟩ := hchoice tpt
    exact ⟨b, hb, by rw [dupBitrateList_eq, hb], hspec⟩
  · obtain ⟨c, hc, hspec⟩ := hchoice tpt
    obtain ⟨c', hc', hspec'⟩ := hchoice tpt'
    obtain rfl := Option.some.inj (hb.symm.trans hc)
    obtain rfl := Option.some.inj (hb'.symm.trans hc')
    exact hspec.mono hle hspec'

section Example

def twoMedia : List UInt8 := bytes "<?xml version=\"1.0\"?><media bitrate=\"500\"/><media bitrate=\"100\"/>"

theorem manifest_bitrate_choice_two :
    parseXmlToList twoMedia = some [100, 500] ∧
      (∀ tpt, ∃ b, selectBitrate [100, 500] tpt = some b ∧ selectBitrate (dupBitrateList [100, 500]) tpt = some b ∧
        IsChoice [100, 500] tpt b) :=
  have hparse : parseXmlToList twoMedia = some [100, 500] := by decide +kernel
  ⟨hparse, (manifest_bitrate_choice twoMedia [100, 500] hparse (by decide)).2.1⟩

end Example

end VideoCDN.Proxy
