import Mathlib.Data.List.Sort
import VideoCDN.Lib.Greatest
import VideoCDN.Proxy.ManifestParsing
import VideoCDN.Reference.DnsCommon

/-!
# The reference proxy

`proxy/proxy` of the starter code: one list of bitrates, read from the manifest on disk, and one average
for all clients. A connection carries one request, and the connections are served one after the other.
Floating-point numbers are exact, as in the estimates of the other proxy.
-/

namespace VideoCDN.Reference

open CString Proxy Greatest

/-! ## The script -/

/-- `int` of a number: towards zero. -/
def truncate (q : ℚ) : Int := q.num.tdiv q.den

/-- `int(float(v[i+9:].split('"')[0]))` for each match of `bitrate=`. -/
def bitrateValues : Str → Option (List Int)
  | [] => some []
  | c :: v =>
    if bytes "bitrate=" <+: c :: v then do
      let b ← intFloat (((c :: v).drop 9).takeWhile (· ≠ 34))
      let br ← bitrateValues v
      return b :: br
    else bitrateValues v

/-- `BR`, sorted. -/
def readBr (v : Str) : Option (List Int) := (bitrateValues v).map fun br => br.insertionSort (· ≤ ·)

/-- A round of the loop of `getBR`. -/
def passBr (avg : ℚ) (b i : Int) : Int := if (i : ℚ) * (3 / 2) < avg then i else b

/-- `getBR`; an empty list raises. -/
def getBr (br : List Int) (avg : ℚ) : Option Int := br.head?.map fun b => br.foldl (passBr avg) b

/-- `str.replace` for a text that is not empty; `skip` bytes of a match are still to be passed. -/
def replaceFrom (old new : Str) : Nat → Str → Str
  | _, [] => []
  | skip + 1, _ :: s => replaceFrom old new skip s
  | 0, c :: s =>
    if old <+: c :: s then new ++ replaceFrom old new (old.length - 1) s else c :: replaceFrom old new 0 s

def replaceAll (old new s : Str) : Str := replaceFrom old new 0 s

/-- The globals of the script. -/
structure RefProxy where
  br : List Int
  avg : ℚ
  alpha : ℚ

/-- `start_server`, for the manifest `v`. -/
def startServer (alpha : ℚ) (v : Str) : Option RefProxy := do
  let br ← readBr v
  let first ← br.head?
  return ⟨br, first, alpha⟩

/-- The path that is requested from the server. -/
def targetPath (p : RefProxy) (path : Str) : Option Str := do
  let path := replaceAll (bytes "big_buck_bunny.f4m") (bytes "big_buck_bunny_nolist.f4m") path
  let b ← getBr p.br p.avg
  return replaceAll (bytes "1000") (decimalInt b) path

/-- A `ConnectionHandler` for a request for `path`, whose response states the length `cl` and takes `reqTime`
seconds. -/
def connectionHandler (p : RefProxy) (path : Str) (cl : Nat) (reqTime : ℚ) : Option (Str × RefProxy) := do
  let path ← targetPath p path
  if bytes "Seg" <:+: path then
    if reqTime = 0 then none
    else
      let tNew := truncate (8 * cl / reqTime / 1000)
      return (path, { p with avg := (1 - p.alpha) * p.avg + p.alpha * tNew })
  else return (path, p)

/-- One request after the other; the paths that are requested from the server. -/
def serveAll : RefProxy → List (Str × Nat × ℚ) → Option (List Str × RefProxy)
  | p, [] => some ([], p)
  | p, (path, cl, reqTime) :: requests => do
    let (path, p) ← connectionHandler p path cl reqTime
    let (paths, p) ← serveAll p requests
    return (path :: paths, p)

/-! ## Replacing -/

section Replace

variable {old new s : Str}

lemma replaceAll_cons (old new : Str) (c : UInt8) (s : Str) :
    replaceAll old new (c :: s) =
      if old <+: c :: s then new ++ replaceFrom old new (old.length - 1) s else c :: replaceAll old new s := rfl

/-- Nothing to replace. -/
lemma replaceAll_of_not_infix (h : ¬old <:+: s) : replaceAll old new s = s := by
  induction s with
  | nil => rfl
  | cons c s ih =>
    rw [replaceAll_cons, if_neg fun hpre => h hpre.isInfix, ih fun hinfix => h (List.infix_cons hinfix)]

lemma replaceFrom_length (pre s : Str) : replaceFrom old new pre.length (pre ++ s) = replaceAll old new s := by
  induction pre with
  | nil => rfl
  | cons c pre ih => exact ih

/-- The bytes before the first match stay. -/
lemma replaceAll_append_of_first {pre : Str} (h : ∀ j < pre.length, ¬old <+: (pre ++ s).drop j) :
    replaceAll old new (pre ++ s) = pre ++ replaceAll old new s := by
  induction pre with
  | nil => rfl
  | cons c pre ih =>
    have hhere : ¬old <+: c :: (pre ++ s) := h 0 (Nat.zero_lt_succ _)
    rw [List.cons_append, replaceAll_cons, if_neg hhere, List.cons_append]
    congr 1
    exact ih fun j hj => h (j + 1) (Nat.succ_lt_succ hj)

/-- A match is replaced. -/
lemma replaceAll_match (hne : old ≠ []) (new s : Str) :
    replaceAll old new (old ++ s) = new ++ replaceAll old new s := by
  obtain ⟨c, tail, rfl⟩ := List.exists_cons_of_ne_nil hne
  have hhere : c :: tail <+: c :: (tail ++ s) := List.prefix_append (c :: tail) s
  rw [List.cons_append, replaceAll_cons, if_pos hhere, List.length_cons, Nat.add_sub_cancel, replaceFrom_length]

end Replace

/-! ## The choice -/

/-- The reference affords a bitrate strictly. -/
def BelowAvg (avg : ℚ) (i : Int) : Prop := (i : ℚ) * (3 / 2) < avg

lemma BelowAvg.of_le {avg : ℚ} {i j : Int} (hj : BelowAvg avg j) (h : i ≤ j) : BelowAvg avg i := by
  have hcast : (i : ℚ) ≤ j := Int.cast_le.mpr h
  unfold BelowAvg at hj ⊢
  exact (mul_le_mul_of_nonneg_right hcast (by norm_num)).trans_lt hj

/-- The loop of `getBR` on a sorted list ends with the greatest bitrate below the average, or where it began. -/
lemma getBr_loop (avg : ℚ) {br : List Int} (hsorted : br.Pairwise (· ≤ ·)) (b : Int) :
    (br.foldl (passBr avg) b = b ∧ ∀ i ∈ br, ¬BelowAvg avg i) ∨
      (br.foldl (passBr avg) b ∈ br ∧ BelowAvg avg (br.foldl (passBr avg) b) ∧
        ∀ i ∈ br, BelowAvg avg i → i ≤ br.foldl (passBr avg) b) := by
  induction br generalizing b with
  | nil => exact Or.inl ⟨rfl, by simp⟩
  | cons i br ih =>
    obtain ⟨hleast, hbr⟩ := List.pairwise_cons.mp hsorted
    by_cases hbelow : BelowAvg avg i
    · have hpass : passBr avg b i = i := if_pos hbelow
      rw [List.foldl_cons, hpass]
      right
      rcases ih hbr i with ⟨hlast, hnone⟩ | ⟨hmem, hlast, hgreatest⟩
      · rw [hlast]
        refine ⟨List.mem_cons_self, hbelow, fun j hj hj' => ?_⟩
        rcases List.mem_cons.mp hj with rfl | hj
        · exact le_rfl
        · exact absurd hj' (hnone j hj)
      · refine ⟨List.mem_cons_of_mem i hmem, hlast, fun j hj hj' => ?_⟩
        rcases List.mem_cons.mp hj with rfl | hj
        · exact hleast _ hmem
        · exact hgreatest j hj hj'
    · have hpass : passBr avg b i = b := if_neg hbelow
      rw [List.foldl_cons, hpass]
      have hnone : ∀ j ∈ br, ¬BelowAvg avg j := fun j hj hj' => hbelow (hj'.of_le (hleast j hj))
      rcases ih hbr b with ⟨hlast, -⟩ | ⟨hmem, hlast, -⟩
      · refine Or.inl ⟨hlast, fun j hj => ?_⟩
        rcases List.mem_cons.mp hj with rfl | hj
        · exact hbelow
        · exact hnone j hj
      · exact absurd hlast (hnone _ hmem)

/-- On a sorted list `getBR` picks the greatest bitrate below the average, or the least. -/
lemma getBr_picks (avg : ℚ) {br : List Int} (hsorted : br.Pairwise (· ≤ ·)) (hne : br ≠ []) :
    ∃ b, getBr br avg = some b ∧ Picks br (BelowAvg avg) b := by
  obtain ⟨first, rest, rfl⟩ := List.exists_cons_of_ne_nil hne
  refine ⟨(first :: rest).foldl (passBr avg) first, rfl, ?_⟩
  rcases getBr_loop avg hsorted first with ⟨hlast, hnone⟩ | ⟨hmem, hlast, hgreatest⟩
  · rw [hlast]
    refine ⟨List.mem_cons_self, Or.inr ⟨hnone, fun i hi => ?_⟩⟩
    rcases List.mem_cons.mp hi with rfl | hi
    · exact le_rfl
    · exact (List.pairwise_cons.mp hsorted).1 i hi
  · exact ⟨hmem, Or.inl ⟨hlast, hgreatest⟩⟩

end VideoCDN.Reference
