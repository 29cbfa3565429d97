import VideoCDN.Lib.Inet
import Mathlib.Algebra.Order.Floor.Semiring
import Mathlib.Algebra.Order.Floor.Ring
import Mathlib.Data.Rat.Floor

/-!
# Throughput estimates

The proxy keeps the smoothed throughput of every client in the linked list `ip_tpt_list`,
keyed by the dotted text of the client address. Arithmetic on throughputs is exact and
truncated to integers where the source converts to `unsigned long`.
-/

namespace VideoCDN.Proxy

open CString Inet

/-- An entry of `ip_tpt_list`. -/
structure IpTpt where
  ip : List UInt8
  tpt : Nat
  deriving DecidableEq, Repr

/-- The entry of the list that `ip_tpt_find` points to, by its position. -/
def ipTptFind (list : List IpTpt) (ip : List UInt8) : Option Nat :=
  list.findIdx? fun curr => (strstr ip curr.ip).isSome

def ipTptAdd (list : List IpTpt) (ip : List UInt8) (tpt : Nat) : List IpTpt :=
  match ipTptFind list ip with
  | some target => list.modify target fun e => { e with tpt := tpt }
  | none => ⟨ip, tpt⟩ :: list

/-- The throughput read through the pointer `ip_tpt_find` returns. -/
def ipTptGet (list : List IpTpt) (ip : List UInt8) : Option Nat :=
  (ipTptFind list ip).bind fun i => list[i]?.map IpTpt.tpt

/-- The initial estimate of a connection accepted from `ip`. -/
def initialTpt (list : List IpTpt) (ip : List UInt8) : Nat := (ipTptGet list ip).getD 0

/-- Throughput of a chunk in Kbps; a zero duration divides by zero. -/
def measuredTpt (chunkSize duration : Nat) : Option Nat :=
  if duration = 0 then none
  else
    let diff : ℚ := duration / 1000
    some ⌊chunkSize / diff / 1000 * 8⌋₊

/-- The weighted average of a new measurement and the old estimate. -/
def smoothedTpt (alpha : ℚ) (T Tcurrent : Nat) : Nat := ⌊alpha * T + (1 - alpha) * Tcurrent⌋₊

/-- The estimate part of `estimate_throughput`: the updated list and the new estimate. -/
def updateEstimate (alpha : ℚ) (list : List IpTpt) (ip : List UInt8) (T : Nat) :
    Option (List IpTpt × Nat) := do
  let list := if (ipTptFind list ip).isNone then ipTptAdd list ip 0 else list
  let Tcurrent ← ipTptGet list ip
  let Tcurrent := smoothedTpt alpha T Tcurrent
  return (ipTptAdd list ip Tcurrent, Tcurrent)

lemma ipTptGet_nil (ip : List UInt8) : ipTptGet [] ip = none := rfl

lemma ipTptGet_cons (e : IpTpt) (list : List IpTpt) (ip : List UInt8) :
    ipTptGet (e :: list) ip = if (strstr ip e.ip).isSome then some e.tpt else ipTptGet list ip := by
  unfold ipTptGet ipTptFind
  rw [List.findIdx?_cons]
  by_cases h : (strstr ip e.ip).isSome
  · simp [h]
  · simp only [h]
    cases list.findIdx? fun curr => (strstr ip curr.ip).isSome <;> simp

lemma ipTptGet_eq_none_iff (list : List IpTpt) (ip : List UInt8) :
    ipTptGet list ip = none ↔ ipTptFind list ip = none := by
  induction list with
  | nil => simp [ipTptGet, ipTptFind]
  | cons e list ih =>
    rw [ipTptGet_cons]
    unfold ipTptFind at ih ⊢
    rw [List.findIdx?_cons]
    by_cases h : (strstr ip e.ip).isSome <;> simp [h, ih]

lemma ipTptAdd_cons (e : IpTpt) (list : List IpTpt) (ip : List UInt8) (tpt : Nat)
    (h : ipTptFind list ip ≠ none) (he : ¬(strstr ip e.ip).isSome) :
    ipTptAdd (e :: list) ip tpt = e :: ipTptAdd list ip tpt := by
  obtain ⟨i, hi⟩ := Option.ne_none_iff_exists'.mp h
  have hcons : ipTptFind (e :: list) ip = some (i + 1) := by
    unfold ipTptFind at hi ⊢
    rw [List.findIdx?_cons]
    simp [he, hi]
  simp [ipTptAdd, hi, hcons]

/-- A run of `ip_tpt_add` calls from the empty list. -/
def ipTptRun (adds : List (InAddr × Nat)) : List IpTpt :=
  adds.foldl (fun list a => ipTptAdd list (inetNtoa a.1) a.2) []

/-- What a history kept per client address would answer: the last value added for `q`. -/
def lastAdd (adds : List (InAddr × Nat)) (q : InAddr) : Option Nat :=
  ((adds.filter fun a => a.1 = q).getLast?).map Prod.snd

lemma ipTptRun_append (adds : List (InAddr × Nat)) (a : InAddr × Nat) :
    ipTptRun (adds ++ [a]) = ipTptAdd (ipTptRun adds) (inetNtoa a.1) a.2 := by
  simp [ipTptRun]

lemma lastAdd_append (adds : List (InAddr × Nat)) (a : InAddr × Nat) (q : InAddr) :
    lastAdd (adds ++ [a]) q = if a.1 = q then some a.2 else lastAdd adds q := by
  unfold lastAdd
  by_cases h : a.1 = q <;> simp [List.filter_append, h]

/-- No address of `U` has the text of another inside its own. -/
def TextsApart (U : Set InAddr) : Prop :=
  ∀ x ∈ U, ∀ y ∈ U, inetNtoa x <:+: inetNtoa y → x = y

/-- Every entry belongs to an address of `U`. -/
def EntriesFrom (U : Set InAddr) (list : List IpTpt) : Prop :=
  ∀ e ∈ list, ∃ x ∈ U, e.ip = inetNtoa x

lemma entriesFrom_add (U : Set InAddr) (list : List IpTpt) (x : InAddr) (tpt : Nat)
    (hlist : EntriesFrom U list) (hx : x ∈ U) : EntriesFrom U (ipTptAdd list (inetNtoa x) tpt) := by
  intro e he
  unfold ipTptAdd at he
  cases hfind : ipTptFind list (inetNtoa x) with
  | none =>
    rw [hfind] at he
    rcases List.mem_cons.mp he with rfl | he
    · exact ⟨x, hx, rfl⟩
    · exact hlist e he
  | some i =>
    rw [hfind] at he
    obtain ⟨j, hj, rfl⟩ := List.getElem_of_mem he
    rw [List.length_modify] at hj
    rw [List.getElem_modify]
    have hold := hlist list[j] (List.getElem_mem hj)
    split <;> exact hold

/-- With texts apart the substring match is an exact match. -/
lemma strstr_isSome_iff_eq (U : Set InAddr) (hU : TextsApart U) (q y : InAddr) (hq : q ∈ U) (hy : y ∈ U) :
    (strstr (inetNtoa q) (inetNtoa y)).isSome ↔ q = y := by
  rw [strstr_isSome_iff]
  constructor
  · exact hU q hq y hy
  · rintro rfl
    exact List.infix_rfl

/-- One `ip_tpt_add` updates the estimate of its own address and no other. -/
theorem ipTptGet_add (U : Set InAddr) (hU : TextsApart U) (list : List IpTpt)
    (hlist : EntriesFrom U list) (x q : InAddr) (hx : x ∈ U) (hq : q ∈ U) (tpt : Nat) :
    ipTptGet (ipTptAdd list (inetNtoa x) tpt) (inetNtoa q) =
      if x = q then some tpt else ipTptGet list (inetNtoa q) := by
  cases hfind : ipTptFind list (inetNtoa x) with
  | none =>
    have hadd : ipTptAdd list (inetNtoa x) tpt = ⟨inetNtoa x, tpt⟩ :: list := by
      simp [ipTptAdd, hfind]
    rw [hadd, ipTptGet_cons]
    simp only [strstr_isSome_iff_eq U hU q x hq hx, eq_comm]
  | some i =>
    induction list generalizing i with
    | nil => simp [ipTptFind] at hfind
    | cons e list ih =>
      obtain ⟨y, hy, hey⟩ := hlist e (by simp)
      have htail : EntriesFrom U list := fun e' he' => hlist e' (by simp [he'])
      have hmatch := strstr_isSome_iff_eq U hU x y hx hy
      by_cases hxy : x = y
      · have hzero : ipTptFind (e :: list) (inetNtoa x) = some 0 := by
          unfold ipTptFind
          rw [List.findIdx?_cons, hey]
          simp [hmatch.mpr hxy]
        have hadd : ipTptAdd (e :: list) (inetNtoa x) tpt = { e with tpt := tpt } :: list := by
          simp [ipTptAdd, hzero]
        rw [hadd, ipTptGet_cons, ipTptGet_cons, hey]
        simp only [strstr_isSome_iff_eq U hU q y hq hy]
        by_cases hqy : q = y
        · simp [hqy, hxy]
        · have hxq : x ≠ q := fun h => hqy (h ▸ hxy)
          simp [hqy, hxq]
      · have he : ¬(strstr (inetNtoa x) e.ip).isSome := by
          rw [hey, hmatch]
          exact hxy
        have hrest : ipTptFind list (inetNtoa x) ≠ none := by
          intro hnone
          unfold ipTptFind at hfind hnone
          rw [List.findIdx?_cons, hnone] at hfind
          simp [he] at hfind
        obtain ⟨j, hj⟩ := Option.ne_none_iff_exists'.mp hrest
        rw [ipTptAdd_cons e list _ tpt hrest he, ipTptGet_cons, ipTptGet_cons, ih htail j hj, hey]
        simp only [strstr_isSome_iff_eq U hU q y hq hy]
        by_cases hxq : x = q
        · have hqy : q ≠ y := fun h => hxy (hxq.trans h)
          simp [hxq, hqy]
        · simp [hxq]

theorem ipTptRun_refines_lastAdd (U : Set InAddr) (hU : TextsApart U) (adds : List (InAddr × Nat))
    (hadds : ∀ a ∈ adds, a.1 ∈ U) :
    EntriesFrom U (ipTptRun adds) ∧
      ∀ q ∈ U, ipTptGet (ipTptRun adds) (inetNtoa q) = lastAdd adds q := by
  induction adds using List.reverseRecOn with
  | nil =>
    refine ⟨by simp [EntriesFrom, ipTptRun], fun q _ => ?_⟩
    simp [ipTptRun, ipTptGet_nil, lastAdd]
  | append_singleton adds a ih =>
    obtain ⟨hlist, hget⟩ := ih (fun b hb => hadds b (by simp [hb]))
    have ha : a.1 ∈ U := hadds a (by simp)
    rw [ipTptRun_append]
    refine ⟨entriesFrom_add U _ a.1 a.2 hlist ha, fun q hq => ?_⟩
    rw [ipTptGet_add U hU _ hlist a.1 q ha hq, hget q hq, lastAdd_append]

/-- The new estimate smooths the client's own stored estimate, zero when there is none. -/
theorem updateEstimate_snd (U : Set InAddr) (hU : TextsApart U) (list : List IpTpt)
    (hlist : EntriesFrom U list) (q : InAddr) (hq : q ∈ U) (alpha : ℚ) (T : Nat) :
    (updateEstimate alpha list (inetNtoa q) T).map Prod.snd =
      some (smoothedTpt alpha T ((ipTptGet list (inetNtoa q)).getD 0)) := by
  unfold updateEstimate
  cases hfind : ipTptFind list (inetNtoa q) with
  | none =>
    have hget : ipTptGet list (inetNtoa q) = none := (ipTptGet_eq_none_iff _ _).mpr hfind
    have hadd : ipTptGet (ipTptAdd list (inetNtoa q) 0) (inetNtoa q) = some 0 := by
      rw [ipTptGet_add U hU list hlist q q hq hq]
      simp
    simp [hadd, hget]
  | some i =>
    have hget : ipTptGet list (inetNtoa q) ≠ none := by
      rw [Ne, ipTptGet_eq_none_iff, hfind]
      simp
    obtain ⟨v, hv⟩ := Option.ne_none_iff_exists'.mp hget
    simp [hv]

/-- The history of client `q` is kept apart from every other client's: a lookup answers the
last value added for exactly `q`, and the estimate a connection from `q` starts from and the
one it computes next depend on nothing else. -/
def HistoryIsolated (adds : List (InAddr × Nat)) (q : InAddr) : Prop :=
  ipTptGet (ipTptRun adds) (inetNtoa q) = lastAdd adds q ∧
    initialTpt (ipTptRun adds) (inetNtoa q) = (lastAdd adds q).getD 0 ∧
    ∀ alpha T, (updateEstimate alpha (ipTptRun adds) (inetNtoa q) T).map Prod.snd =
      some (smoothedTpt alpha T ((lastAdd adds q).getD 0))

/-- Clients with addresses in `U` have isolated histories in every run exactly when no
address of `U` has the text of another inside its own. -/
theorem history_isolated_iff_texts_apart (U : Set InAddr) :
    (∀ adds : List (InAddr × Nat), (∀ a ∈ adds, a.1 ∈ U) → ∀ q ∈ U, HistoryIsolated adds q) ↔
      TextsApart U := by
  constructor
  · intro h x hx y hy hxy
    by_contra hne
    obtain ⟨hget, -⟩ := h [(y, 1)] (by simpa using hy) x hx
    have hlast : lastAdd [(y, 1)] x = none := by
      simp [lastAdd, Ne.symm hne]
    have hfound : ipTptGet (ipTptRun [(y, 1)]) (inetNtoa x) = some 1 := by
      have hrun : ipTptRun [(y, 1)] = [⟨inetNtoa y, 1⟩] := rfl
      rw [hrun, ipTptGet_cons, if_pos ((strstr_isSome_iff _ _).mpr hxy)]
    rw [hfound, hlast] at hget
    exact absurd hget (by simp)
  · intro hU adds hadds q hq
    obtain ⟨hlist, hget⟩ := ipTptRun_refines_lastAdd U hU adds hadds
    refine ⟨hget q hq, ?_, fun alpha T => ?_⟩
    · rw [initialTpt, hget q hq]
    · rw [updateEstimate_snd U hU _ hlist q hq, hget q hq]

/-- A client at 1.0.0.1 starts from the estimate of the client at 11.0.0.1. -/
theorem history_of_contained_address_leaks :
    ¬∀ (adds : List (InAddr × Nat)) (q : InAddr), HistoryIsolated adds q := by
  intro h
  obtain ⟨hget, -⟩ := h [(⟨11, 0, 0, 1⟩, 5)] ⟨1, 0, 0, 1⟩
  exact absurd hget (by decide)

end VideoCDN.Proxy
