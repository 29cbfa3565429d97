import Mathlib.Algebra.Order.Floor.Semifield
import VideoCDN.Lib.FloorAverage
import VideoCDN.Proxy.ProxyRun

/-!
# Estimates over runs

An estimate lies between the measured throughput and the estimate before it, so none in a run is
above the largest measured throughput. A steady throughput is reached from above; from below the
estimates stop short of it. A chunk that takes less than a millisecond has no throughput.
-/

namespace VideoCDN.Proxy

open CString Inet FloorAverage

/-! ## The stored estimate -/

/-- The estimate for an address, zero when there is none. -/
def storedTpt (list : List IpTpt) (ip : List UInt8) : Nat := (ipTptGet list ip).getD 0

lemma ipTptGet_cons_self (ip : List UInt8) (tpt : Nat) (list : List IpTpt) :
    ipTptGet (⟨ip, tpt⟩ :: list) ip = some tpt := by
  have hself : (strstr ip ip).isSome := (strstr_isSome_iff ip ip).mpr List.infix_rfl
  rw [ipTptGet_cons, if_pos hself]

/-- What is added is found again, whatever other addresses the entry is found for. -/
lemma ipTptGet_add_self (list : List IpTpt) (ip : List UInt8) (tpt : Nat) :
    ipTptGet (ipTptAdd list ip tpt) ip = some tpt := by
  cases hfind : ipTptFind list ip with
  | none =>
    have hadd : ipTptAdd list ip tpt = ⟨ip, tpt⟩ :: list := by simp [ipTptAdd, hfind]
    rw [hadd, ipTptGet_cons_self]
  | some i =>
    induction list generalizing i with
    | nil => simp [ipTptFind] at hfind
    | cons e list ih =>
      by_cases hmatch : (strstr ip e.ip).isSome
      · have hzero : ipTptFind (e :: list) ip = some 0 := by
          rw [ipTptFind, List.findIdx?_cons, if_pos hmatch]
        have hadd : ipTptAdd (e :: list) ip tpt = { e with tpt := tpt } :: list := by simp [ipTptAdd, hzero]
        rw [hadd, ipTptGet_cons, if_pos hmatch]
      · have hrest : ipTptFind list ip ≠ none := by
          intro hnone
          rw [ipTptFind] at hfind hnone
          rw [List.findIdx?_cons, hnone, if_neg hmatch] at hfind
          simp at hfind
        obtain ⟨j, hj⟩ := Option.ne_none_iff_exists'.mp hrest
        rw [ipTptAdd_cons e list ip tpt hrest hmatch, ipTptGet_cons, if_neg hmatch, ih j hj]

/-- The entry of an address is there before its estimate is read. -/
lemma updateEstimate_eq (alpha : ℚ) (list : List IpTpt) (ip : List UInt8) (T : Nat) :
    ∃ entries, updateEstimate alpha list ip T = some (ipTptAdd entries ip (smoothedTpt alpha T (storedTpt list ip)),
        smoothedTpt alpha T (storedTpt list ip)) ∧
      (entries = list ∨ entries = ipTptAdd list ip 0) := by
  cases hget : ipTptGet list ip with
  | none =>
    have hfind : ipTptFind list ip = none := (ipTptGet_eq_none_iff list ip).mp hget
    refine ⟨ipTptAdd list ip 0, ?_, Or.inr rfl⟩
    simp [updateEstimate, hfind, storedTpt, hget, ipTptGet_add_self]
  | some v =>
    have hfind : ipTptFind list ip ≠ none := by
      rw [Ne, ← ipTptGet_eq_none_iff, hget]
      simp
    refine ⟨list, ?_, Or.inl rfl⟩
    simp [updateEstimate, hfind, storedTpt, hget]

/-! ## A steady throughput -/

/-- The list after a chunk with throughput `T`. -/
def estimateChunk (alpha : ℚ) (ip : List UInt8) (T : Nat) (list : List IpTpt) : List IpTpt :=
  ((updateEstimate alpha list ip T).map Prod.fst).getD list

/-- The stored estimate after `k` chunks that all have throughput `T`. -/
def estimateAfter (alpha : ℚ) (ip : List UInt8) (T : Nat) (list : List IpTpt) (k : Nat) : Nat :=
  storedTpt ((estimateChunk alpha ip T)^[k] list) ip

lemma storedTpt_estimateChunk (alpha : ℚ) (ip : List UInt8) (T : Nat) (list : List IpTpt) :
    storedTpt (estimateChunk alpha ip T list) ip = smoothedTpt alpha T (storedTpt list ip) := by
  obtain ⟨entries, hupdate, -⟩ := updateEstimate_eq alpha list ip T
  rw [estimateChunk, hupdate, Option.map_some, Option.getD_some, storedTpt, ipTptGet_add_self, Option.getD_some]

lemma estimateAfter_eq (alpha : ℚ) (ip : List UInt8) (T : Nat) (list : List IpTpt) (k : Nat) :
    estimateAfter alpha ip T list k = (floorAverage alpha T)^[k] (storedTpt list ip) := by
  have hstep : Function.Semiconj (fun list => storedTpt list ip) (estimateChunk alpha ip T) (floorAverage alpha T) :=
    storedTpt_estimateChunk alpha ip T
  exact (hstep.iterate_right k).eq list

/-- A steady throughput is reached from above only, unless old estimates have no weight; from below
the estimates stop nearer to it than `1 / alpha`. -/
theorem steady_estimate_reaches_iff (alpha : ℚ) (h0 : 0 < alpha) (h1 : alpha ≤ 1) (T : Nat) (list : List IpTpt)
    (ip : List UInt8) :
    ((∃ n, ∀ k, n ≤ k → estimateAfter alpha ip T list k = T) ↔ alpha = 1 ∨ T ≤ storedTpt list ip) ∧
      (alpha < 1 → storedTpt list ip < T → ∃ (n E : Nat), (T : ℚ) - 1 / alpha < E ∧ E < T ∧
        ∀ k, n ≤ k → estimateAfter alpha ip T list k = E) := by
  simp only [estimateAfter_eq]
  exact ⟨iterate_reaches_iff h0 h1, fun hlt hbelow => iterate_stops_below h0 hlt hbelow⟩

theorem steady_estimate_reaches_iff_half :
    ((∃ n, ∀ k, n ≤ k → estimateAfter (1 / 2) (bytes "1.0.0.1") 1 [] k = 1) ↔
        (1 / 2 : ℚ) = 1 ∨ 1 ≤ storedTpt [] (bytes "1.0.0.1")) ∧
      ∃ (n E : Nat), ((1 : ℕ) : ℚ) - 1 / (1 / 2) < E ∧ E < 1 ∧
        ∀ k, n ≤ k → estimateAfter (1 / 2) (bytes "1.0.0.1") 1 [] k = E := by
  have h := steady_estimate_reaches_iff (1 / 2) (by norm_num) (by norm_num) 1 [] (bytes "1.0.0.1")
  exact ⟨h.1, h.2 (by norm_num) Nat.one_pos⟩

/-- The first estimates of a client never come up to a throughput of 1. -/
theorem first_estimates_stop_short :
    ¬∀ (alpha : ℚ), 0 < alpha → alpha ≤ 1 → ∀ (T : Nat) (list : List IpTpt) (ip : List UInt8),
      ∃ n, ∀ k, n ≤ k → estimateAfter alpha ip T list k = T := by
  intro h
  obtain ⟨n, hn⟩ := h (1 / 2) (by norm_num) (by norm_num) 1 [] (bytes "1.0.0.1")
  have hzero : ∀ k, estimateAfter (1 / 2) (bytes "1.0.0.1") 1 [] k < 1 := by
    intro k
    rw [estimateAfter_eq]
    exact iterate_lt_target (by norm_num) (by norm_num) Nat.one_pos k
  exact absurd (hn n le_rfl) (hzero n).ne

/-! ## One call -/

/-- A call of `estimate_throughput`: the configuration and the connection it reads, the size of the
chunk, and the clock. -/
structure EstimateCall where
  alpha : ℚ
  list : List IpTpt
  ip : List UInt8
  chunkSize : Nat
  tS : Nat
  tFinish : Nat

namespace EstimateCall

variable (call : EstimateCall)

def duration : Nat := (call.tFinish + 2 ^ 64 - call.tS) % 2 ^ 64

def measured : Option Nat := measuredTpt call.chunkSize call.duration

def stored : Nat := storedTpt call.list call.ip

/-- There is a measurement, and the new estimate, which is stored, lies between it and the old one. -/
def Bounded : Prop :=
  ∃ T list estimate, call.measured = some T ∧ updateEstimate call.alpha call.list call.ip T = some (list, estimate) ∧
    storedTpt list call.ip = estimate ∧ min T call.stored ≤ estimate ∧ estimate ≤ max T call.stored

/-- The clock has moved on, and the new estimate fits an `int`. -/
def Meets : Prop :=
  call.tFinish ≠ call.tS ∧
    call.alpha * (8 * call.chunkSize / call.duration : Nat) + (1 - call.alpha) * call.stored < 2 ^ 31

instance : Decidable call.Meets := inferInstanceAs (Decidable (_ ∧ _))

end EstimateCall

/-- The call made when a chunk of the given size has arrived. -/
def estimateCall (config : Config) (conn : ProxyConn) (chunkSize : Nat) : EstimateCall :=
  ⟨config.alpha, config.ipTptList, conn.browser.ip, chunkSize, conn.tS, config.getMillTime.1⟩

/-- The conversions cancel: bytes in milliseconds are kilobits in seconds when there are eight times as many. -/
lemma measuredTpt_eq {chunkSize duration : Nat} (h : duration ≠ 0) :
    measuredTpt chunkSize duration = some (8 * chunkSize / duration) := by
  have hpos : (duration : ℚ) ≠ 0 := Nat.cast_ne_zero.mpr h
  have hvalue : (chunkSize : ℚ) / ((duration : ℚ) / 1000) / 1000 * 8 = ((8 * chunkSize : Nat) : ℚ) / duration := by
    push_cast
    field_simp
  rw [measuredTpt, if_neg h]
  simp only [hvalue, Nat.floor_div_eq_div]

lemma EstimateCall.duration_eq_zero_iff (call : EstimateCall) (hle : call.tS ≤ call.tFinish)
    (hlt : call.tFinish < 2 ^ 64) : call.duration = 0 ↔ call.tFinish = call.tS := by
  rw [EstimateCall.duration]
  omega

/-- A call is bounded exactly when the clock has moved on. -/
lemma EstimateCall.bounded_iff (call : EstimateCall) (h0 : 0 ≤ call.alpha) (h1 : call.alpha ≤ 1)
    (hle : call.tS ≤ call.tFinish) (hlt : call.tFinish < 2 ^ 64) : call.Bounded ↔ call.tFinish ≠ call.tS := by
  rw [Ne, ← call.duration_eq_zero_iff hle hlt]
  constructor
  · rintro ⟨T, list, estimate, hmeasured, -⟩ hzero
    rw [EstimateCall.measured, measuredTpt, if_pos hzero] at hmeasured
    cases hmeasured
  · intro hne
    obtain ⟨entries, hupdate, -⟩ := updateEstimate_eq call.alpha call.list call.ip (8 * call.chunkSize / call.duration)
    refine ⟨_, _, _, measuredTpt_eq hne, hupdate, ?_, ?_, ?_⟩
    · rw [storedTpt, ipTptGet_add_self, Option.getD_some]
    · exact min_le_floorAverage h0 h1
    · exact floorAverage_le_max h0 h1

/-- What `estimate_throughput` does to the history and to the connection. -/
lemma estimateThroughput_call {config config' : Config} {conn conn' : ProxyConn} {chunkSize : Nat}
    (h : estimateThroughput config conn chunkSize = some (config', conn')) :
    ∃ T list estimate, (estimateCall config conn chunkSize).measured = some T ∧
      updateEstimate config.alpha config.ipTptList conn.browser.ip T = some (list, estimate) ∧
      config'.alpha = config.alpha ∧ config'.ipTptList = list ∧ conn'.tCurr = castInt estimate := by
  obtain ⟨T, list, estimate, ret, name, hmeasured, hupdate, -, rfl, rfl⟩ := estimateThroughput_eq_some h
  exact ⟨T, list, estimate, hmeasured, hupdate, rfl, rfl, rfl⟩

/-! ## Runs -/

/-- The calls made for a sequence of responses. -/
def estimateCalls : Config → ProxyConn → List (List UInt8 × List UInt8) → List EstimateCall
  | _, _, [] => []
  | config, conn, (header, body) :: responses =>
    let later := ((respond config conn header body).map fun first =>
      estimateCalls first.config first.conn responses).getD []
    if conn.state.handler = some .chunk then estimateCall config conn body.length :: later else later

/-- The calls made in a step. -/
def stepCalls (w : ProxyState) : ProxyEvent → List EstimateCall
  | .server i data =>
    ((w.conns[i]?).bind fun conn => (handlerServer w.config conn data).map fun r =>
      estimateCalls w.config conn (handled r.dispatched)).getD []
  | _ => []

/-- The runs from an empty history in which every call meets its condition, with what was measured. -/
inductive MeteredRun (config : Config) : ProxyState → List Nat → Prop
  | start : MeteredRun config (ProxyState.start { config with ipTptList := [] }) []
  | step {w w' : ProxyState} {measured : List Nat} (e : ProxyEvent) (h : MeteredRun config w measured)
      (hmeets : ∀ call ∈ stepCalls w e, call.Meets) (hstep : proxyStep w e = some w') :
      MeteredRun config w' (measured ++ (stepCalls w e).filterMap EstimateCall.measured)

/-- The largest measured throughput, zero when there is none. -/
def largest (measured : List Nat) : Nat := measured.foldr max 0

lemma le_largest {measured : List Nat} {T : Nat} (h : T ∈ measured) : T ≤ largest measured := by
  induction measured with
  | nil => cases h
  | cons x measured ih =>
    rcases List.mem_cons.mp h with rfl | h
    · exact le_max_left _ _
    · exact (ih h).trans (le_max_right _ _)

lemma largest_append_left (xs ys : List Nat) : largest xs ≤ largest (xs ++ ys) := by
  induction xs with
  | nil => exact Nat.zero_le _
  | cons x xs ih => exact max_le_max le_rfl ih

/-- No estimate of the history is above the bound. -/
def HistoryBelow (bound : Nat) (list : List IpTpt) : Prop := ∀ e ∈ list, e.tpt ≤ bound

lemma HistoryBelow.stored {bound : Nat} {list : List IpTpt} (h : HistoryBelow bound list) (ip : List UInt8) :
    storedTpt list ip ≤ bound := by
  rw [storedTpt, ipTptGet]
  cases ipTptFind list ip with
  | none => exact Nat.zero_le _
  | some i =>
    rw [Option.bind_some]
    cases hentry : list[i]? with
    | none => exact Nat.zero_le _
    | some e => exact h e (List.mem_of_getElem? hentry)

lemma HistoryBelow.add {bound tpt : Nat} {list : List IpTpt} (h : HistoryBelow bound list) (htpt : tpt ≤ bound)
    (ip : List UInt8) : HistoryBelow bound (ipTptAdd list ip tpt) := by
  intro e he
  unfold ipTptAdd at he
  split at he
  · obtain ⟨j, hj, rfl⟩ := List.getElem_of_mem he
    rw [List.length_modify] at hj
    rw [List.getElem_modify]
    split
    · exact htpt
    · exact h _ (List.getElem_mem hj)
  · rcases List.mem_cons.mp he with rfl | he
    · exact htpt
    · exact h e he

/-- A number below `2 ^ 31` survives the cast to `int`. -/
lemma castInt_eq {n : Nat} (h : n < 2 ^ 31) : castInt n = n := by
  rw [castInt, Nat.mod_eq_of_lt (by omega), if_pos h]

/-- A chunk leaves the estimates below a bound on what was measured. -/
lemma estimateThroughput_below {bound : Nat} {config config' : Config} {conn conn' : ProxyConn} {chunkSize : Nat}
    (h0 : 0 ≤ config.alpha) (h1 : config.alpha ≤ 1) (hhistory : HistoryBelow bound config.ipTptList)
    (hmeets : (estimateCall config conn chunkSize).Meets)
    (hmeasured : ∀ T, (estimateCall config conn chunkSize).measured = some T → T ≤ bound)
    (h : estimateThroughput config conn chunkSize = some (config', conn')) :
    config'.alpha = config.alpha ∧ HistoryBelow bound config'.ipTptList ∧ conn'.tCurr ≤ bound := by
  obtain ⟨T, list, estimate, hT, hupdate, halpha, rfl, htCurr⟩ := estimateThroughput_call h
  obtain ⟨entries, hentries, hfrom⟩ := updateEstimate_eq config.alpha config.ipTptList conn.browser.ip T
  obtain ⟨hlist, hestimate⟩ := Prod.mk.injEq .. ▸ Option.some.inj (hupdate.symm.trans hentries)
  have hle : estimate ≤ bound := by
    rw [hestimate]
    exact (floorAverage_le_max h0 h1).trans (max_le (hmeasured T hT) (hhistory.stored _))
  have hduration : (estimateCall config conn chunkSize).duration ≠ 0 := by
    intro hzero
    rw [EstimateCall.measured, measuredTpt, if_pos hzero] at hT
    cases hT
  have hint : estimate < 2 ^ 31 := by
    rw [EstimateCall.measured, measuredTpt_eq hduration] at hT
    obtain rfl := Option.some.inj hT
    rw [hestimate, smoothedTpt, Nat.floor_lt (average_nonneg h0 h1 _ _)]
    exact_mod_cast hmeets.2
  refine ⟨halpha, ?_, by rw [htCurr, castInt_eq hint]; exact hle⟩
  rw [hlist, ← hestimate]
  rcases hfrom with rfl | rfl
  · exact hhistory.add hle _
  · exact (hhistory.add (Nat.zero_le _) _).add hle _

/-- The handlers but that of a chunk leave the estimates alone. -/
lemma Handler.run_estimates {handler : Handler} {config config' : Config} {conn conn' : ProxyConn}
    {body : List UInt8} {sent : List Sent} (hkind : handler ≠ .chunk)
    (h : handler.run config conn body = some (config', conn', sent)) :
    config'.alpha = config.alpha ∧ config'.ipTptList = config.ipTptList ∧ conn'.tCurr = conn.tCurr := by
  rcases Handler.run_cases h with ⟨rfl, rfl, -⟩ | ⟨-, hf4m⟩ | ⟨hchunk, -⟩
  · exact ⟨rfl, rfl, rfl⟩
  · obtain ⟨list, ret, saved, -, -, rfl, rfl, -⟩ := handleRespF4m_eq_some hf4m
    refine ⟨?_, ?_, rfl⟩ <;> split <;> rfl
  · exact absurd hchunk hkind

lemma respondAll_below {bound : Nat} {config : Config} {conn : ProxyConn}
    {responses : List (List UInt8 × List UInt8)} {run : ServerRun}
    (h0 : 0 ≤ config.alpha) (h1 : config.alpha ≤ 1) (hhistory : HistoryBelow bound config.ipTptList)
    (htCurr : conn.tCurr ≤ bound) (hmeets : ∀ call ∈ estimateCalls config conn responses, call.Meets)
    (hmeasured : ∀ call ∈ estimateCalls config conn responses, ∀ T, call.measured = some T → T ≤ bound)
    (h : respondAll config conn responses = some run) :
    run.config.alpha = config.alpha ∧ HistoryBelow bound run.config.ipTptList ∧ run.conn.tCurr ≤ bound := by
  induction responses generalizing config conn run with
  | nil =>
    obtain rfl := Option.some.inj h
    exact ⟨rfl, hhistory, htCurr⟩
  | cons response responses ih =>
    obtain ⟨header, body⟩ := response
    obtain ⟨first, rest, hfirst, hrest, rfl⟩ := respondAll_cons_eq_some h
    simp only [estimateCalls, hfirst, Option.map_some, Option.getD_some] at hmeets hmeasured
    obtain ⟨handler, hhandler, -, conn', hrun, hconn⟩ := respond_dispatched hfirst
    have hlater : ∀ call ∈ estimateCalls first.config first.conn responses,
        call ∈ (if conn.state.handler = some .chunk then
          estimateCall config conn body.length :: estimateCalls first.config first.conn responses
          else estimateCalls first.config first.conn responses) := by
      intro call hcall
      split
      · exact List.mem_cons_of_mem _ hcall
      · exact hcall
    have hone : first.config.alpha = config.alpha ∧ HistoryBelow bound first.config.ipTptList ∧
        first.conn.tCurr ≤ bound := by
      have hcurr : first.conn.tCurr = conn'.tCurr := by
        rw [hconn]
        rfl
      by_cases hkind : handler = .chunk
      · subst hkind
        rw [if_pos hhandler] at hmeets hmeasured
        obtain ⟨hestimate, -⟩ := handleRespChunk_eq_some hrun
        rw [hcurr]
        refine estimateThroughput_below h0 h1 hhistory ?_ ?_ hestimate
        · exact hmeets _ List.mem_cons_self
        · exact hmeasured _ List.mem_cons_self
      · obtain ⟨halpha, hlist, hsame⟩ := Handler.run_estimates hkind hrun
        rw [hcurr, hsame, hlist]
        exact ⟨halpha, hhistory, htCurr⟩
    obtain ⟨halpha, hhistory', htCurr'⟩ := hone
    obtain ⟨halpha', hrest'⟩ := ih (halpha ▸ h0) (halpha ▸ h1) hhistory' htCurr'
      (fun call hcall => hmeets call (hlater call hcall)) (fun call hcall => hmeasured call (hlater call hcall)) hrest
    exact ⟨halpha'.trans halpha, hrest'⟩

/-- What is received from the browser leaves the estimates alone. -/
lemma handlerBrowser_estimates {config : Config} {conn : ProxyConn} {data : List UInt8} {r : BrowserResult}
    (h : handlerBrowser config conn data = some r) :
    r.config.alpha = config.alpha ∧ r.config.ipTptList = config.ipTptList ∧ r.conn.tCurr = conn.tCurr := by
  obtain ⟨buf, request, -, -, ⟨-, rfl⟩ | ⟨-, -, rfl⟩ | ⟨-, -, ⟨config', conn', sent⟩, hforward, rfl⟩⟩ :=
    handlerBrowser_cases h
  · exact ⟨rfl, rfl, rfl⟩
  · exact ⟨rfl, rfl, rfl⟩
  · rcases forwardRequest_cases hforward with ⟨-, bitrate, text, chunkName, newBuf, -, rfl, rfl, -⟩ |
      ⟨-, text, -, rfl, rfl, -⟩ | ⟨-, -, text, -, rfl, rfl, -⟩
    · exact ⟨rfl, rfl, rfl⟩
    · exact ⟨rfl, rfl, rfl⟩
    · exact ⟨rfl, rfl, rfl⟩

/-- What holds in every state of such a run. -/
structure EstimatesBelow (alpha : ℚ) (bound : Nat) (w : ProxyState) : Prop where
  alpha_eq : w.config.alpha = alpha
  history : HistoryBelow bound w.config.ipTptList
  conns : ∀ conn ∈ w.conns, conn.tCurr ≤ bound

lemma EstimatesBelow.mono {alpha : ℚ} {bound bound' : Nat} {w : ProxyState} (h : EstimatesBelow alpha bound w)
    (hle : bound ≤ bound') : EstimatesBelow alpha bound' w :=
  ⟨h.alpha_eq, fun e he => (h.history e he).trans hle, fun conn hconn => (h.conns conn hconn).trans hle⟩

lemma EstimatesBelow.step {alpha : ℚ} {bound : Nat} {w w' : ProxyState} {e : ProxyEvent} (h0 : 0 ≤ alpha)
    (h1 : alpha ≤ 1) (hw : EstimatesBelow alpha bound w) (hmeets : ∀ call ∈ stepCalls w e, call.Meets)
    (hmeasured : ∀ call ∈ stepCalls w e, ∀ T, call.measured = some T → T ≤ bound) (h : proxyStep w e = some w') :
    EstimatesBelow alpha bound w' := by
  cases e with
  | accept ip serverFd =>
    obtain rfl := Option.some.inj h
    refine ⟨hw.alpha_eq, hw.history, fun conn hconn => ?_⟩
    rcases List.mem_cons.mp hconn with rfl | hconn
    · exact hw.history.stored ip
    · exact hw.conns conn hconn
  | browser i data =>
    obtain ⟨conn, r, hconn, hcall, rfl⟩ := proxyStep_browser h
    obtain ⟨halpha, hlist, hcurr⟩ := handlerBrowser_estimates hcall
    refine ⟨halpha.trans hw.alpha_eq, by rw [hlist]; exact hw.history, fun c hc => ?_⟩
    rcases mem_afterCall hc with hc | ⟨rfl, -⟩
    · exact hw.conns c hc
    · rw [hcurr]
      exact hw.conns conn (List.mem_of_getElem? hconn)
  | server i data =>
    obtain ⟨conn, r, hconn, hcall, rfl⟩ := proxyStep_server h
    obtain ⟨run, hrun, hconfig, hcore, -, hdispatched⟩ := handlerServer_handles hcall
    have hcalls : stepCalls w (.server i data) = estimateCalls w.config conn (handled r.dispatched) := by
      simp only [stepCalls, hconn, hcall, Option.bind_some, Option.map_some, Option.getD_some]
    rw [hcalls, hdispatched, List.nil_append] at hmeets hmeasured
    have hcurr : r.conn.tCurr = run.conn.tCurr := by
      rw [← hcore]
      rfl
    obtain ⟨halpha, hhistory, hbelow⟩ := respondAll_below (hw.alpha_eq ▸ h0) (hw.alpha_eq ▸ h1) hw.history
      (hw.conns conn (List.mem_of_getElem? hconn)) hmeets hmeasured hrun
    rw [hconfig]
    refine ⟨halpha.trans hw.alpha_eq, hhistory, fun c hc => ?_⟩
    rcases mem_afterCall hc with hc | ⟨rfl, -⟩
    · exact hw.conns c hc
    · rw [hcurr]
      exact hbelow
  | hangup i =>
    obtain rfl := Option.some.inj h
    exact ⟨hw.alpha_eq, hw.history, fun conn hconn => hw.conns conn (List.mem_of_mem_eraseIdx hconn)⟩

lemma MeteredRun.estimates {config : Config} {w : ProxyState} {measured : List Nat} (h0 : 0 ≤ config.alpha)
    (h1 : config.alpha ≤ 1) (h : MeteredRun config w measured) : EstimatesBelow config.alpha (largest measured) w := by
  induction h with
  | start => exact ⟨rfl, fun e he => (List.not_mem_nil he).elim, fun conn hconn => (List.not_mem_nil hconn).elim⟩
  | step e _ hmeets hstep ih =>
    refine (ih.mono (largest_append_left _ _)).step h0 h1 hmeets (fun call hcall T hT => ?_) hstep
    exact le_largest (List.mem_append_right _ (List.mem_filterMap.mpr ⟨call, hcall, hT⟩))

/-- A call is bounded exactly when the clock has moved on since the request; and in a run in which it
always has, and every estimate fits an `int`, none is above the largest measured throughput. -/
theorem estimates_bounded (config : Config) (h0 : 0 ≤ config.alpha) (h1 : config.alpha ≤ 1) :
    (∀ call : EstimateCall, call.alpha = config.alpha → call.tS ≤ call.tFinish → call.tFinish < 2 ^ 64 →
      (call.Bounded ↔ call.tFinish ≠ call.tS)) ∧
    ∀ (w : ProxyState) (measured : List Nat), MeteredRun config w measured →
      ∀ conn ∈ w.conns, conn.tCurr ≤ largest measured := by
  constructor
  · intro call halpha hle hlt
    exact call.bounded_iff (halpha ▸ h0) (halpha ▸ h1) hle hlt
  · intro w measured hrun
    exact (hrun.estimates h0 h1).conns

section Example

/-- A thousand bytes that arrive when the clock shows `tFinish`, and were requested at 5. -/
def callAt (tFinish : Nat) : EstimateCall := ⟨1 / 2, [], bytes "1.0.0.1", 1000, 5, tFinish⟩

/-- A configuration whose clock moves on at every reading. -/
def tickingConfig : Config := { newConfig with clock := id }

def chunkAnswer : List UInt8 := bytes "HTTP/1.1 200 OK\r\nContent-Length: 1\r\n\r\nx"

/-- A manifest and its nolist form, and then two chunks, the second one of three bytes. -/
def twoChunks : List ProxyEvent :=
  [.accept (bytes "1.0.0.1") (some 5), .browser 0 listRequest, .server 0 listAnswer, .server 0 chunkAnswer,
    .browser 0 chunkData, .server 0 chunkAnswer, .browser 0 chunkData,
    .server 0 (bytes "HTTP/1.1 200 OK\r\nContent-Length: 3\r\n\r\nxyz")]

/-- The state after a sequence of events in which every call meets its condition, and what was measured. -/
def meterEvents (w : ProxyState) (measured : List Nat) : List ProxyEvent → Option (ProxyState × List Nat)
  | [] => some (w, measured)
  | e :: events =>
    if ∀ call ∈ stepCalls w e, call.Meets then
      (proxyStep w e).bind fun w' =>
        meterEvents w' (measured ++ (stepCalls w e).filterMap EstimateCall.measured) events
    else none

lemma MeteredRun.of_events {config : Config} {w : ProxyState} {measured : List Nat} {events : List ProxyEvent}
    {r : ProxyState × List Nat} (h : MeteredRun config w measured)
    (hevents : meterEvents w measured events = some r) : MeteredRun config r.1 r.2 := by
  induction events generalizing w measured with
  | nil =>
    obtain rfl := Option.some.inj hevents
    exact h
  | cons e events ih =>
    rw [meterEvents] at hevents
    split at hevents
    · rename_i hmeets
      obtain ⟨w', hstep, hrest⟩ := Option.bind_eq_some_iff.mp hevents
      exact ih (.step e h hmeets hstep) hrest
    · cases hevents

theorem estimates_bounded_chunks :
    ((callAt 7).Bounded ↔ 7 ≠ 5) ∧ ∃ w conn, MeteredRun tickingConfig w [8, 24] ∧ conn ∈ w.conns ∧ conn.tCurr = 14 ∧
      conn.tCurr ≤ largest [8, 24] := by
  have halpha : tickingConfig.alpha = 1 / 2 := rfl
  obtain ⟨hcall, hbelow⟩ := estimates_bounded tickingConfig (by norm_num [halpha]) (by norm_num [halpha])
  refine ⟨hcall (callAt 7) rfl (by decide) (by decide), ?_⟩
  have h : ((meterEvents (ProxyState.start tickingConfig) [] twoChunks).map fun r =>
      (r.2, r.1.conns.map ProxyConn.tCurr)) = some ([8, 24], [14]) := by
    decide +kernel
  obtain ⟨⟨w, measured⟩, hevents, h⟩ := Option.map_eq_some_iff.mp h
  obtain ⟨rfl, hestimates⟩ := Prod.mk.inj h
  have hstart : MeteredRun tickingConfig (ProxyState.start tickingConfig) [] := .start
  have hrun := hstart.of_events hevents
  obtain ⟨conn, hconns, hestimate⟩ := List.map_eq_singleton_iff.mp hestimates
  have hconn : conn ∈ w.conns := hconns ▸ List.mem_singleton_self conn
  exact ⟨w, conn, hrun, hconn, hestimate, hbelow w [8, 24] hrun conn hconn⟩

/-- A chunk that arrives in the millisecond of its request has no throughput. -/
theorem immediate_chunk_divides_by_zero :
    ¬∀ call : EstimateCall, 0 ≤ call.alpha → call.alpha ≤ 1 → call.tS ≤ call.tFinish → call.tFinish < 2 ^ 64 →
      call.Bounded := by
  intro h
  obtain ⟨T, list, estimate, hmeasured, -⟩ :=
    h (callAt 5) (by norm_num [callAt]) (by norm_num [callAt]) (by decide) (by decide)
  have hzero : (callAt 5).duration = 0 :=
    ((callAt 5).duration_eq_zero_iff (by decide) (by decide)).mpr rfl
  rw [EstimateCall.measured, measuredTpt, if_pos hzero] at hmeasured
  cases hmeasured

end Example

end VideoCDN.Proxy
