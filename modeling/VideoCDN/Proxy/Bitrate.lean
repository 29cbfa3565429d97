import VideoCDN.Nameserver.Topology

/-!
# Bitrate lists

`bitrate.c`: the bitrates of a manifest in ascending order and the choice among them. An empty
list is the null pointer. The bound of the choice is compared exactly.
-/

namespace VideoCDN.Proxy

open CString Nameserver

/-- The walk of `select_bitrate`; `pre` is the bitrate passed last. -/
def selectLoop (tpt : Nat) : List Int → Option Int → Option Int
  | [], pre => pre
  | bitrate :: pt, pre => if 3 * bitrate ≤ 2 * tpt then selectLoop tpt pt (some bitrate) else pre

/-- A bitrate of at most `tpt / 1.5`, or the first one. -/
def selectBitrate (head : List Int) (tpt : Nat) : Option Int :=
  match selectLoop tpt head none with
  | none => head.head?
  | some bitrate => some bitrate

def sortedInsertBitrate (bitrateNum : Int) : List Int → List Int
  | [] => [bitrateNum]
  | bitrate :: pt =>
    if bitrate < bitrateNum then bitrate :: sortedInsertBitrate bitrateNum pt
    else bitrateNum :: bitrate :: pt

/-- The number in the first `bitrate=` attribute, if it is quoted. -/
def scanBitrate (pt : List UInt8) : Option (Option Int) :=
  match strstr (bytes "bitrate=") pt with
  | none => some none
  | some i =>
    let quoted := pt.drop (i + 8)
    if quoted.head? = some 34 then (scanInt quoted.tail).map fun n => n.map Prod.fst
    else some none

/-- The loop over the occurrences of `<media`. -/
def mediaLoop : List UInt8 → List Int → Option (List Int)
  | [], head => some head
  | c :: pt, head =>
    if bytes "<media" <+: c :: pt then do
      match ← scanBitrate pt with
      | none => mediaLoop pt head
      | some bitrate => mediaLoop pt (sortedInsertBitrate bitrate head)
    else mediaLoop pt head

def parseXmlToList (buf : List UInt8) : Option (List Int) :=
  match strstr (bytes "<?xml") (cstr buf) with
  | none => some []
  | some pt => mediaLoop ((cstr buf).drop pt) []

/-- A copy of the list. -/
def dupBitrateList : List Int → List Int
  | [] => []
  | bitrate :: pt => bitrate :: dupBitrateList pt

@[simp] lemma dupBitrateList_eq (head : List Int) : dupBitrateList head = head := by
  induction head with
  | nil => rfl
  | cons bitrate pt ih => rw [dupBitrateList, ih]

lemma selectBitrate_isSome_iff (head : List Int) (tpt : Nat) : (selectBitrate head tpt).isSome ↔ head ≠ [] := by
  have hloop : ∀ (l : List Int) (b : Int), (selectLoop tpt l (some b)).isSome := by
    intro l
    induction l with
    | nil => exact fun b => rfl
    | cons c l ih =>
      intro b
      rw [selectLoop]
      split
      · exact ih c
      · rfl
  cases head with
  | nil => simp [selectBitrate, selectLoop]
  | cons b l =>
    simp only [selectBitrate, selectLoop, ne_eq, reduceCtorEq, not_false_eq_true, iff_true]
    split
    · simp
    · rfl

end VideoCDN.Proxy
