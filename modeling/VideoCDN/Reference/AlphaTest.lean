import VideoCDN.Proxy.TrialLog
import VideoCDN.Reference.Interop

/-!
# The test of alpha

`run_alpha_test` of the graders makes a link slower, and `get_log_switch_len` asks the log of the proxy
after how many chunks the lower bitrate has come to stay.
-/

namespace VideoCDN.Reference

open CString Inet FloorAverage Proxy

/-! ## Reading the switch -/

/-- `float` of a whole number as the proxy writes it; the other texts it takes are left out. -/
def wholeFloat : Str → Option Int
  | 45 :: digits => (intFloat digits).map fun n => -(n : Int)
  | digits => (intFloat digits).map fun n => (n : Int)

/-- The loop of `get_log_switch_len`, at entry `i`. -/
def switchLoop (startBr endBr : Int) : Nat → Nat → List (List Str) → Option Nat
  | _, switch, [] => some switch
  | i, switch, e :: entries => do
    let br ← e[4]?.bind wholeFloat
    let switch := if br = endBr ∧ switch = 0 then i else switch
    let switch := if br = startBr then 0 else switch
    switchLoop startBr endBr (i + 1) switch entries

def getLogSwitchLen (log : Str) (numTrials : Nat) (startBr endBr : Int) : Option Nat :=
  switchLoop startBr endBr 0 0 ((iterLog log).drop numTrials)

lemma wholeFloat_decimalInt (n : Int) : wholeFloat (decimalInt n) = some n := by
  cases n with
  | ofNat n =>
    have hhead : ∀ digits, decimal n ≠ 45 :: digits := by
      intro digits h
      have hdigit := isdigit_of_mem_decimal n 45 (h ▸ List.mem_cons_self)
      exact absurd hdigit (by decide)
    change wholeFloat (decimal n) = some (n : Int)
    rw [wholeFloat, intFloat_decimal]
    · rfl
    · exact hhead
  | negSucc n =>
    change (intFloat (decimal (n + 1))).map (fun n => -(n : Int)) = some (Int.negSucc n)
    rw [intFloat_decimal]
    rfl

section Loop

variable {seconds : Nat → List UInt8} {serverIp : List UInt8} {startBr endBr : Int} {m n i switch : Nat}
  {records : List ChunkRecord}

/-- An entry of the log. -/
lemma switchLoop_cons (r : ChunkRecord) (records : List ChunkRecord) :
    switchLoop startBr endBr i switch ((r :: records).map fun r => r.fields seconds serverIp) =
      switchLoop startBr endBr (i + 1)
        (if r.bitrate = startBr then 0 else if r.bitrate = endBr ∧ switch = 0 then i else switch)
        (records.map fun r => r.fields seconds serverIp) := by
  have hfield : ((r.fields seconds serverIp)[4]?).bind wholeFloat = some r.bitrate := wholeFloat_decimalInt r.bitrate
  rw [List.map_cons, switchLoop, hfield]
  rfl

/-- Where the bitrate has come to stay at entry `n`, the switch is found there or before. -/
lemma switchLoop_settles (hne : startBr ≠ endBr) (hn : 0 < n) (hle : switch ≤ n) (hset : i ≤ n ∨ 0 < switch)
    (hlen : n < i + records.length) (hstays : ∀ k r, records[k]? = some r → n ≤ i + k → r.bitrate = endBr) :
    ∃ m, switchLoop startBr endBr i switch (records.map fun r => r.fields seconds serverIp) = some m ∧
      0 < m ∧ m ≤ n := by
  induction records generalizing i switch with
  | nil =>
    rw [List.length_nil] at hlen
    exact ⟨switch, rfl, by omega, hle⟩
  | cons r records ih =>
    rw [switchLoop_cons]
    have hlater : ∀ k r', records[k]? = some r' → n ≤ i + 1 + k → r'.bitrate = endBr := by
      intro k r' hr' hk
      exact hstays (k + 1) r' (by simpa using hr') (by omega)
    have hlen' : n < i + 1 + records.length := by
      rw [List.length_cons] at hlen
      omega
    by_cases hi : i < n
    · -- the loop may still go back to no switch
      refine ih ?_ (Or.inl hi) hlen' hlater
      split
      · exact Nat.zero_le n
      · split
        · exact hi.le
        · exact hle
    · have hend : r.bitrate = endBr := hstays 0 r rfl (by omega)
      have hstart : r.bitrate ≠ startBr := fun h => hne (h.symm.trans hend)
      rw [if_neg hstart]
      by_cases hzero : switch = 0
      · rw [if_pos ⟨hend, hzero⟩]
        exact ih (by omega) (Or.inr (by omega)) hlen' hlater
      · rw [if_neg fun h => hzero h.2]
        exact ih hle (Or.inr (by omega)) hlen' hlater

/-- The switch that is found is to an entry with the bitrate. -/
lemma switchLoop_end
    (h : switchLoop startBr endBr i switch (records.map fun r => r.fields seconds serverIp) = some m) (hm : 0 < m) :
    m = switch ∨ i ≤ m ∧ ∃ r, records[m - i]? = some r ∧ r.bitrate = endBr := by
  induction records generalizing i switch with
  | nil => exact Or.inl (Option.some.inj h).symm
  | cons r records ih =>
    rw [switchLoop_cons] at h
    rcases ih h with hfound | ⟨hle, r', hr', hend⟩
    · split at hfound
      · omega
      · split at hfound
        · rename_i hhere
          rw [hfound, Nat.sub_self]
          exact Or.inr ⟨le_rfl, r, rfl, hhere.1⟩
        · exact Or.inl hfound
    · refine Or.inr ⟨by omega, r', ?_, hend⟩
      have hindex : m - i = m - (i + 1) + 1 := by omega
      rw [hindex, List.getElem?_cons_succ, hr']

end Loop

/-! ## The log of a slower link -/

/-- The log of a proxy: `before` until the link of the client `q` changed, while `estimate` is stored for it, and
`after` from then on, when the client gets its chunks in turn, with throughputs from `lo` to `hi` and bitrates out of
`list`. Other clients get no chunks any more. -/
structure SlowedLog (U : Set InAddr) (q : InAddr) (config : Config) (estimate lo hi : Nat) (list : List Int)
    (before after : List ChunkRecord) : Prop where
  run : ∃ w₀ s, RecordedRun (ClientOf U) (ProxyState.start config) w₀ before ∧ SteadyFrom U q config w₀ estimate ∧
    TrialRun (ClientOf U) (inetNtoa q) list lo hi w₀ s ∧ s.log = after
  named : ∀ r ∈ before ++ after, IsLogWord (cstr r.chunkName)

section Slowed

variable {U : Set InAddr} {q : InAddr} {config : Config} {estimate lo hi : Nat} {list : List Int}
  {before after : List ChunkRecord} {seconds : Nat → List UInt8}

/-- The log is read back. -/
lemma SlowedLog.getLogSwitchLen_eq (h : SlowedLog U q config estimate lo hi list before after)
    (hseconds : ∀ d, IsLogWord (seconds d)) (server : InAddr) (startBr endBr : Int) :
    getLogSwitchLen (chunkLog seconds (inetNtoa server) (before ++ after)) before.length startBr endBr =
      switchLoop startBr endBr 0 0 (after.map fun r => r.fields seconds (inetNtoa server)) := by
  rw [getLogSwitchLen, (chunkLog_read_iff hseconds server (before ++ after)).mpr h.named, ← List.map_drop,
    List.drop_left]

/-- The bitrate of a record is the choice for the throughputs before it. -/
lemma SlowedLog.chosen (h : SlowedLog U q config estimate lo hi list before after) (hU : TextsApart U)
    (hq : q ∈ U) (hentries : EntriesFrom U config.ipTptList) (h0 : 0 ≤ config.alpha) (h1 : config.alpha ≤ 1)
    (hbound : max hi estimate < 2 ^ 31) {k : Nat} {r : ChunkRecord} (hr : after[k]? = some r) :
    ∃ Ts, Ts.length = k ∧ (∀ T ∈ Ts, lo ≤ T ∧ T ≤ hi) ∧
      IsChoice list (floorAverages config.alpha estimate Ts) r.bitrate := by
  obtain ⟨w₀, s, -, hfrom, hrun, rfl⟩ := h.run
  have htested := hrun.tested hfrom hU hq hentries h0 h1 hbound
  have hk : k < s.log.length := (List.getElem?_eq_some_iff.mp hr).1
  refine ⟨(s.log.take k).map ChunkRecord.tPut, ?_, fun T hT => ?_, htested.chosen k r hr⟩
  · rw [List.length_map, List.length_take]
    omega
  · obtain ⟨record, hrecord, rfl⟩ := List.mem_map.mp hT
    exact htested.measured record (List.mem_of_mem_take hrecord)

/-- The bitrate of a record is chosen for an estimate that is not below `lo`, and what it is above `hi` fades. -/
lemma SlowedLog.isChoice (h : SlowedLog U q config estimate lo hi list before after) (hU : TextsApart U)
    (hq : q ∈ U) (hentries : EntriesFrom U config.ipTptList) (h0 : 0 ≤ config.alpha) (h1 : config.alpha ≤ 1)
    (hlo : lo ≤ estimate) (hbound : max hi estimate < 2 ^ 31) {k : Nat} {r : ChunkRecord}
    (hr : after[k]? = some r) :
    ∃ e : Nat, IsChoice list e r.bitrate ∧ lo ≤ e ∧
      (e : ℚ) - hi ≤ (1 - config.alpha) ^ k * (estimate - hi) := by
  obtain ⟨Ts, rfl, hTs, hchoice⟩ := h.chosen hU hq hentries h0 h1 hbound hr
  refine ⟨floorAverages config.alpha estimate Ts, hchoice, ?_, ?_⟩
  · exact le_floorAverages h0 h1 hlo fun T hT => (hTs T hT).1
  · exact floorAverages_sub_le h0 h1 estimate fun T hT => (hTs T hT).2

/-- With one throughput the estimates are those of the iteration. -/
lemma SlowedLog.isChoice_iterate {T : Nat} (h : SlowedLog U q config estimate T T list before after)
    (hU : TextsApart U) (hq : q ∈ U) (hentries : EntriesFrom U config.ipTptList) (h0 : 0 ≤ config.alpha)
    (h1 : config.alpha ≤ 1) (hT : T ≤ estimate) (hbound : estimate < 2 ^ 31) {k : Nat} {r : ChunkRecord}
    (hr : after[k]? = some r) : IsChoice list ((floorAverage config.alpha T)^[k] estimate) r.bitrate := by
  obtain ⟨Ts, hlen, hTs, hchoice⟩ := h.chosen hU hq hentries h0 h1 (by rwa [max_eq_right hT]) hr
  obtain rfl : Ts = List.replicate k T :=
    List.eq_replicate_iff.mpr ⟨hlen, fun x hx => le_antisymm (hTs x hx).2 (hTs x hx).1⟩
  rwa [floorAverages_replicate] at hchoice

/-- From record `n` on all have the switched bitrate, and the switch is found there or before. -/
lemma SlowedLog.switch_le (h : SlowedLog U q config estimate lo hi list before after)
    (hseconds : ∀ d, IsLogWord (seconds d)) (server : InAddr) {startBr endBr : Int} (hne : startBr ≠ endBr) {n : Nat}
    (hn : 0 < n) (hlen : n < after.length)
    (hstays : ∀ k r, after[k]? = some r → n ≤ k → r.bitrate = endBr) :
    ∃ m, getLogSwitchLen (chunkLog seconds (inetNtoa server) (before ++ after)) before.length startBr endBr = some m ∧
      0 < m ∧ m ≤ n := by
  rw [h.getLogSwitchLen_eq hseconds]
  refine switchLoop_settles hne hn (Nat.zero_le n) (Or.inl (Nat.zero_le n)) (by omega) fun k r hr hk => ?_
  exact hstays k r hr (by omega)

/-- When every estimate from `lo` up to `margin` above `hi` leads to the lower bitrate, the switch is logged
within `n` chunks, as soon as `n` of them make the old estimate fade into the margin. -/
theorem switch_logged_within (hU : TextsApart U) (hentries : EntriesFrom U config.ipTptList) (h0 : 0 ≤ config.alpha)
    (h1 : config.alpha ≤ 1) (hq : q ∈ U) (hlo : lo ≤ estimate) (hbound : max hi estimate < 2 ^ 31)
    (hlog : SlowedLog U q config estimate lo hi list before after) (startBr endBr : Int)
    (hne : startBr ≠ endBr) (margin : ℚ) (hmargin : 0 < margin)
    (hend : ∀ e : Nat, lo ≤ e → (e : ℚ) < hi + margin → IsChoice list e endBr) (n : Nat) (hn : 0 < n)
    (hfade : (1 - config.alpha) ^ n * (estimate - hi) < margin) (hlen : n < after.length)
    (hseconds : ∀ d, IsLogWord (seconds d)) (server : InAddr) :
    ∃ m, getLogSwitchLen (chunkLog seconds (inetNtoa server) (before ++ after)) before.length startBr endBr = some m ∧
      0 < m ∧ m ≤ n := by
  refine hlog.switch_le hseconds server hne hn hlen fun k r hr hk => ?_
  obtain ⟨e, hchoice, hle, hfaded⟩ := hlog.isChoice hU hq hentries h0 h1 hlo hbound hr
  have hweight : (0 : ℚ) ≤ 1 - config.alpha := sub_nonneg.mpr h1
  have hpow : (1 - config.alpha) ^ k ≤ (1 - config.alpha) ^ n :=
    pow_le_pow_of_le_one hweight (sub_le_self 1 h0) hk
  have hnear : (1 - config.alpha) ^ k * ((estimate : ℚ) - hi) < margin := by
    rcases le_total (hi : ℚ) estimate with hhi | hhi
    · exact (mul_le_mul_of_nonneg_right hpow (sub_nonneg.mpr hhi)).trans_lt hfade
    · exact (mul_nonpos_of_nonneg_of_nonpos (pow_nonneg hweight k) (sub_nonpos.mpr hhi)).trans_lt hmargin
  exact hchoice.unique (hend e hle (by linarith))

/-- Of two proxies on the same link, the one with the greater alpha logs the switch after no more chunks. -/
theorem greater_alpha_switches_first (hU : TextsApart U) (hq : q ∈ U) (config₁ config₂ : Config)
    (hentries₁ : EntriesFrom U config₁.ipTptList) (hentries₂ : EntriesFrom U config₂.ipTptList)
    (h0 : 0 ≤ config₁.alpha) (hle : config₁.alpha ≤ config₂.alpha) (h1 : config₂.alpha ≤ 1) (estimate T : Nat)
    (hT : T ≤ estimate) (hbound : estimate < 2 ^ 31) (before₁ after₁ before₂ after₂ : List ChunkRecord)
    (hlog₁ : SlowedLog U q config₁ estimate T T list before₁ after₁)
    (hlog₂ : SlowedLog U q config₂ estimate T T list before₂ after₂) (hlen : after₁.length ≤ after₂.length)
    (startBr endBr : Int) (hne : startBr ≠ endBr) (hend : IsChoice list T endBr)
    (hseconds : ∀ d, IsLogWord (seconds d)) (server : InAddr) (m₁ : Nat)
    (hswitch : getLogSwitchLen (chunkLog seconds (inetNtoa server) (before₁ ++ after₁)) before₁.length startBr endBr =
      some m₁) (hm₁ : 0 < m₁) :
    ∃ m₂, getLogSwitchLen (chunkLog seconds (inetNtoa server) (before₂ ++ after₂)) before₂.length startBr endBr =
        some m₂ ∧ 0 < m₂ ∧ m₂ ≤ m₁ := by
  rw [hlog₁.getLogSwitchLen_eq hseconds] at hswitch
  obtain ⟨r₁, hr₁, hend₁⟩ : ∃ r, after₁[m₁]? = some r ∧ r.bitrate = endBr := by
    rcases switchLoop_end hswitch hm₁ with hzero | ⟨-, r, hr, hend⟩
    · omega
    · exact ⟨r, by rwa [Nat.sub_zero] at hr, hend⟩
  have hlen₁ : m₁ < after₁.length := (List.getElem?_eq_some_iff.mp hr₁).1
  refine hlog₂.switch_le hseconds server hne hm₁ (hlen₁.trans_le hlen) fun k r hr hk => ?_
  have hchoice₁ := hlog₁.isChoice_iterate hU hq hentries₁ h0 (hle.trans h1) hT hbound hr₁
  have hchoice := hlog₂.isChoice_iterate hU hq hentries₂ (h0.trans hle) h1 hT hbound hr
  -- the second proxy's estimate lies between the new throughput and the first proxy's
  have hbehind : (floorAverage config₂.alpha T)^[k] estimate ≤ (floorAverage config₁.alpha T)^[m₁] estimate :=
    (iterate_antitone (h0.trans hle) h1 hT hk).trans (iterate_le_of_weight h0 hle h1 hT m₁)
  have habove : T ≤ (floorAverage config₂.alpha T)^[k] estimate :=
    (le_min le_rfl hT).trans (min_le_iterate (h0.trans hle) h1 k)
  apply le_antisymm
  · exact hend₁ ▸ hchoice.mono hbehind hchoice₁
  · exact hend.mono habove hchoice

end Slowed

section Example

/-- The client has an estimate from before. -/
def slowConfig (alpha : ℚ) : Config :=
  { tickingConfig with alpha := alpha, ipTptList := [⟨bytes "1.0.0.1", 1000⟩] }

/-- A thousand kilobits in a second, at a reading of the clock in each millisecond. -/
def fastAnswer : List UInt8 := bytes "HTTP/1.1 200 OK\r\nContent-Length: 125\r\n\r\n" ++ List.replicate 125 120

/-- The client gets a chunk on a connection of its own. -/
def getChunk (answer : List UInt8) : List ProxyEvent :=
  [.accept (bytes "1.0.0.1") (some 5), .browser 0 chunkData, .server 0 answer, .hangup 0]

/-- Another client is connected, and the client gets a manifest and a chunk. -/
def fastEvents : List ProxyEvent :=
  [.accept (bytes "2.0.0.2") (some 6), .accept (bytes "1.0.0.1") (some 5), .browser 0 listRequest,
    .server 0 listAnswer, .server 0 chunkAnswer, .hangup 0] ++ getChunk fastAnswer

/-- Two chunks at a byte in a millisecond; meanwhile the other client gets a manifest. -/
def slowEvents : List ProxyEvent :=
  getChunk chunkAnswer ++ [.browser 0 listRequest, .server 0 listAnswer] ++ getChunk chunkAnswer

def slowRun (alpha : ℚ) : Option (ProxyState × List ChunkRecord × Trials) := do
  let (w₀, before) ← recordEvents (ProxyState.start (slowConfig alpha)) fastEvents
  let s ← trialEvents (bytes "1.0.0.1") [100, 500] 8 8 (Trials.start w₀) slowEvents
  return (w₀, before, s)

def slowBefore (alpha : ℚ) : List ChunkRecord := ((slowRun alpha).map fun r => r.2.1).getD []

def slowAfter (alpha : ℚ) : List ChunkRecord := ((slowRun alpha).map fun r => r.2.2.log).getD []

/-- What is seen of the run: the connections of the client and its estimate when the link changes, whether the names in
the log can be read back, the length of the log until then, and the bitrates in it from then on. -/
def slowState (r : ProxyState × List ChunkRecord × Trials) : Nat × Nat × Bool × Nat × List Int :=
  ((r.1.conns.filter fun c => c.browser.ip = bytes "1.0.0.1").length,
    storedTpt r.1.config.ipTptList (bytes "1.0.0.1"),
    (r.2.1 ++ r.2.2.log).all fun record =>
      !(cstr record.chunkName).isEmpty && (cstr record.chunkName).all fun c => !isspace c,
    r.2.1.length, r.2.2.log.map ChunkRecord.bitrate)

lemma slowEvents_clients (ip : List UInt8) (serverFd : Option Nat)
    (h : .accept ip serverFd ∈ fastEvents ∨ .accept ip serverFd ∈ slowEvents) : ClientOf twoClients ip := by
  have hone : ClientOf twoClients (bytes "1.0.0.1") := ⟨_, Or.inl rfl, by decide⟩
  have htwo : ClientOf twoClients (bytes "2.0.0.2") := ⟨_, Or.inr rfl, by decide⟩
  simp only [fastEvents, slowEvents, getChunk, List.mem_append, List.mem_cons, ProxyEvent.accept.injEq, reduceCtorEq,
    List.not_mem_nil, or_false] at h
  rcases h with ((⟨rfl, -⟩ | ⟨rfl, -⟩) | ⟨rfl, -⟩) | ⟨rfl, -⟩ | ⟨rfl, -⟩
  · exact htwo
  · exact hone
  · exact hone
  · exact hone
  · exact hone

lemma slowedLog_of_state (alpha : ℚ)
    (h : (slowRun alpha).map slowState = some (0, 1000, true, 1, [500, 100])) :
    SlowedLog twoClients ⟨1, 0, 0, 1⟩ (slowConfig alpha) 1000 8 8 [100, 500] (slowBefore alpha) (slowAfter alpha) ∧
      (slowBefore alpha).length = 1 ∧ (slowAfter alpha).map ChunkRecord.bitrate = [500, 100] := by
  obtain ⟨⟨w₀, before, s⟩, hrun, hstate⟩ := Option.map_eq_some_iff.mp h
  have hbefore : slowBefore alpha = before := by simp [slowBefore, hrun]
  have hafter : slowAfter alpha = s.log := by simp [slowAfter, hrun]
  simp only [slowRun, Option.bind_eq_bind, Option.bind_eq_some_iff, Option.pure_def, Option.some.injEq, Prod.mk.injEq]
    at hrun
  obtain ⟨⟨w, records⟩, hevents, s', htrial, rfl, rfl, rfl⟩ := hrun
  simp only [slowState, Prod.mk.injEq, List.all_eq_true, Bool.and_eq_true, Bool.not_eq_true', List.isEmpty_eq_false_iff]
    at hstate
  obtain ⟨hnone, hstored, hnames, hlength, hbitrates⟩ := hstate
  have hrecorded := RecordedRun.start.events (fun ip serverFd h => slowEvents_clients ip serverFd (Or.inl h)) hevents
  rw [List.nil_append] at hrecorded
  obtain ⟨calls, hlogged⟩ := hrecorded.logged
  have hips : ∀ conn ∈ w.conns, conn.browser.ip ≠ inetNtoa ⟨1, 0, 0, 1⟩ := fun conn hconn hip =>
    List.filter_eq_nil_iff.mp (List.length_eq_zero_iff.mp hnone) conn hconn (decide_eq_true hip)
  rw [hbefore, hafter]
  refine ⟨⟨⟨w, s', hrecorded, ⟨⟨calls, hlogged⟩, hnone.le.trans (Nat.zero_le 1), hstored, fun conn hconn hip =>
    absurd hip (hips conn hconn)⟩, ?_, rfl⟩, hnames⟩, hlength, hbitrates⟩
  exact TrialRun.start.events (fun ip serverFd h => slowEvents_clients ip serverFd (Or.inr h)) htrial

lemma slowedLog_half : SlowedLog twoClients ⟨1, 0, 0, 1⟩ (slowConfig (1 / 2)) 1000 8 8 [100, 500]
    (slowBefore (1 / 2)) (slowAfter (1 / 2)) ∧ (slowBefore (1 / 2)).length = 1 ∧
      (slowAfter (1 / 2)).map ChunkRecord.bitrate = [500, 100] :=
  slowedLog_of_state _ (by decide +kernel)

lemma slowedLog_one : SlowedLog twoClients ⟨1, 0, 0, 1⟩ (slowConfig 1) 1000 8 8 [100, 500] (slowBefore 1)
    (slowAfter 1) ∧ (slowBefore 1).length = 1 ∧ (slowAfter 1).map ChunkRecord.bitrate = [500, 100] :=
  slowedLog_of_state _ (by decide +kernel)

lemma slowConfig_entries (alpha : ℚ) : EntriesFrom twoClients (slowConfig alpha).ipTptList := by
  intro e he
  obtain rfl := List.mem_singleton.mp he
  exact ⟨_, Or.inl rfl, by decide⟩

/-- Below 750 the lower one of the two bitrates is chosen. -/
lemma isChoice_low {e : Nat} (he : e < 750) : IsChoice [100, 500] e 100 := by
  refine ⟨List.mem_cons_self, ?_⟩
  by_cases h : Affordable e 100
  · refine Or.inl ⟨h, fun b hb haffordable => ?_⟩
    unfold Affordable at haffordable
    simp only [List.mem_cons, List.not_mem_nil, or_false] at hb
    omega
  · refine Or.inr ⟨fun b hb haffordable => h ?_, fun b hb => ?_⟩ <;>
      simp only [List.mem_cons, List.not_mem_nil, or_false] at hb
    · exact haffordable.of_le (by omega)
    · omega

theorem switch_logged_within_half :
    (slowBefore (1 / 2)).length = 1 ∧ (slowAfter (1 / 2)).length = 2 ∧
      ∃ m, getLogSwitchLen (chunkLog sixDecimals (inetNtoa ⟨2, 0, 0, 1⟩) (slowBefore (1 / 2) ++ slowAfter (1 / 2)))
        (slowBefore (1 / 2)).length 500 100 = some m ∧ 0 < m ∧ m ≤ 1 := by
  obtain ⟨hlog, hbefore, hbitrates⟩ := slowedLog_half
  have halpha : (slowConfig (1 / 2)).alpha = 1 / 2 := rfl
  have hlength : (slowAfter (1 / 2)).length = 2 := by
    rw [← List.length_map (f := ChunkRecord.bitrate), hbitrates]
    rfl
  refine ⟨hbefore, hlength, switch_logged_within twoClients_apart (slowConfig_entries _)
    (by norm_num [halpha]) (by norm_num [halpha]) (Or.inl rfl) (by decide) (by decide) hlog 500 100
    (by decide) 742 (by norm_num) (fun e _ he => isChoice_low ?_) 1 one_pos (by norm_num [halpha]) (by omega)
    isLogWord_sixDecimals ⟨2, 0, 0, 1⟩⟩
  have hbelow : (e : ℚ) < (750 : ℕ) := he.trans_le (by norm_num)
  exact Nat.cast_lt.mp hbelow

theorem greater_alpha_switches_first_half :
    getLogSwitchLen (chunkLog sixDecimals (inetNtoa ⟨2, 0, 0, 1⟩) (slowBefore (1 / 2) ++ slowAfter (1 / 2)))
        (slowBefore (1 / 2)).length 500 100 = some 1 ∧
      ∃ m, getLogSwitchLen (chunkLog sixDecimals (inetNtoa ⟨2, 0, 0, 1⟩) (slowBefore 1 ++ slowAfter 1))
        (slowBefore 1).length 500 100 = some m ∧ 0 < m ∧ m ≤ 1 := by
  obtain ⟨hlog₁, -, hbitrates₁⟩ := slowedLog_half
  obtain ⟨hlog₂, -, hbitrates₂⟩ := slowedLog_one
  have hswitch : getLogSwitchLen (chunkLog sixDecimals (inetNtoa ⟨2, 0, 0, 1⟩)
      (slowBefore (1 / 2) ++ slowAfter (1 / 2))) (slowBefore (1 / 2)).length 500 100 = some 1 := by
    rw [hlog₁.getLogSwitchLen_eq isLogWord_sixDecimals]
    obtain ⟨first, rest, hafter, hfirst, hrest⟩ := List.map_eq_cons_iff.mp hbitrates₁
    obtain ⟨second, none, rfl, hsecond, hnone⟩ := List.map_eq_cons_iff.mp hrest
    obtain rfl := List.map_eq_nil_iff.mp hnone
    rw [hafter, switchLoop_cons, switchLoop_cons, hfirst, hsecond]
    rfl
  have hlength : (slowAfter (1 / 2)).length ≤ (slowAfter 1).length := by
    rw [← List.length_map (f := ChunkRecord.bitrate), hbitrates₁, ← List.length_map (f := ChunkRecord.bitrate),
      hbitrates₂]
  have halpha : (slowConfig (1 / 2)).alpha = 1 / 2 := rfl
  have hone : (slowConfig 1).alpha = 1 := rfl
  exact ⟨hswitch, greater_alpha_switches_first twoClients_apart (Or.inl rfl) (slowConfig (1 / 2)) (slowConfig 1)
    (slowConfig_entries _) (slowConfig_entries _) (by norm_num [halpha]) (by norm_num [halpha, hone])
    (by norm_num [hone]) 1000 8 (by decide) (by decide) _ _ _ _ hlog₁ hlog₂ hlength 500 100 (by decide)
    (isChoice_low (by decide)) isLogWord_sixDecimals ⟨2, 0, 0, 1⟩ 1 hswitch one_pos⟩

end Example

end VideoCDN.Reference
