import VideoCDN.Proxy.ClientHistory

/-!
# Adaptation to a steady link

The bitrates that are chosen for a client whose chunks all arrive with one throughput go up or down,
but never both, and settle, whatever the other clients do.
-/

namespace VideoCDN.Proxy

open CString Buffer Http Inet FloorAverage

/-- After `k` chunks of the client at `ip`, all with throughput `T`, in a run from `w₀` a bitrate of `list` is
chosen for a request on a connection of the client. -/
def ChosenAfter (clients : List UInt8 → Prop) (w₀ : ProxyState) (ip : List UInt8) (T : Nat) (list : List Int)
    (k : Nat) (bitrate : Int) : Prop :=
  ∃ w calls, LoggedRun clients w₀ w calls ∧ measuredFor ip calls = List.replicate k T ∧
    ∃ conn ∈ w.conns, conn.browser.ip = ip ∧ ∃ data r request, handlerBrowser w.config conn data = some r ∧
      r.forwarded = some request ∧ checkType request = .chunk ∧ list = chooseList w.config conn ∧
      bitrate = r.conn.bitrate

/-- The same after chunks with the throughputs `Ts`. -/
def ChosenOn (clients : List UInt8 → Prop) (w₀ : ProxyState) (ip : List UInt8) (Ts : List Nat) (list : List Int)
    (bitrate : Int) : Prop :=
  ∃ w calls, LoggedRun clients w₀ w calls ∧ measuredFor ip calls = Ts ∧
    ∃ conn ∈ w.conns, conn.browser.ip = ip ∧ ∃ data r request, handlerBrowser w.config conn data = some r ∧
      r.forwarded = some request ∧ checkType request = .chunk ∧ list = chooseList w.config conn ∧
      bitrate = r.conn.bitrate

lemma chosenAfter_iff {clients : List UInt8 → Prop} {w₀ : ProxyState} {ip : List UInt8} {T k : Nat} {list : List Int}
    {bitrate : Int} :
    ChosenAfter clients w₀ ip T list k bitrate ↔ ChosenOn clients w₀ ip (List.replicate k T) list bitrate := Iff.rfl

/-- Two connections are not both from `ip`. -/
def NotBoth (ip : List UInt8) (c d : ProxyConn) : Prop := c.browser.ip = ip → d.browser.ip ≠ ip

lemma NotBoth.symm {ip : List UInt8} {c d : ProxyConn} (h : NotBoth ip c d) : NotBoth ip d c :=
  fun hd hc => h hc hd

section Client

variable {U : Set InAddr} {q : InAddr} {alpha : ℚ} {estimate₀ : InAddr → Nat}

/-- A connection of a client in `U`, which uses the stored estimate if it is from `q`. -/
def UsesStored (U : Set InAddr) (q : InAddr) (estimate : Nat) (s : Shared) (conn : ProxyConn) : Prop :=
  (∃ x ∈ U, conn.browser.ip = inetNtoa x) ∧ (conn.browser.ip = inetNtoa q → conn.tCurr =
    if measuredFor (inetNtoa q) s.calls = [] then estimate
    else castInt (storedTpt s.config.ipTptList (inetNtoa q)))

lemma keeps_stored (hU : TextsApart U) (hq : q ∈ U) (estimate : Nat) :
    Sessions.Keeps (Opens (ClientOf (U \ {q}))) Acts (History U alpha estimate₀) (UsesStored U q estimate)
      (NotBoth (inetNtoa q)) where
  symm := fun _ _ => NotBoth.symm
  opened := by
    rintro s conn - ⟨ip, serverFd, ⟨x, ⟨hx, hne⟩, rfl⟩, rfl⟩
    have hother : inetNtoa x ≠ inetNtoa q := fun heq => hne (hU.eq hx hq heq)
    exact ⟨⟨⟨x, hx, rfl⟩, fun hip => absurd hip hother⟩, fun d hip => absurd hip hother⟩
  acted := by
    intro s conn s' left hs hown h
    obtain ⟨⟨x, hx, hip⟩, hcurr⟩ := hown
    obtain ⟨conn', calls, hlog, hleft, hupdated, hcalls⟩ := h.updated hU hx hip hs.entries
    refine ⟨hs.acts hU hx hip h, fun c hc => ?_⟩
    obtain rfl := hleft c hc
    refine ⟨⟨⟨x, hx, hupdated.ip.trans hip⟩, fun hipq => ?_⟩, fun d hapart hipq => hapart (hupdated.ip ▸ hipq)⟩
    obtain rfl := hU.eq hx hq ((hupdated.ip.trans hip).symm.trans hipq)
    rw [hlog, measuredFor_append, measuredFor_of_all hcalls, if_pos rfl, hupdated.current]
    by_cases hnone : measuredIn calls = []
    · have hsame : storedTpt s'.config.ipTptList (inetNtoa x) = storedTpt s.config.ipTptList (inetNtoa x) := by
        rw [hupdated.own, hnone]
        rfl
      rw [if_pos hnone, hcurr hip, hnone, List.append_nil, hsame]
    · rw [if_neg hnone, if_neg (List.append_ne_nil_of_right_ne_nil _ hnone)]
  others := by
    intro s conn s' left other hs hown hother hapart h
    obtain ⟨⟨x, hx, hip⟩, -⟩ := hown
    obtain ⟨conn', calls, hlog, -, hupdated, hcalls⟩ := h.updated hU hx hip hs.entries
    refine ⟨hother.1, fun hipq => ?_⟩
    -- the acting connection is not from the client
    have hne : inetNtoa q ≠ inetNtoa x := fun heq => hapart (hip.trans heq.symm) hipq
    rw [hlog, measuredFor_append, measuredFor_of_all hcalls, if_neg hne, List.append_nil,
      hupdated.others q hq fun heq => hne (heq ▸ rfl)]
    exact hother.2 hipq

/-! ## A steady throughput -/

lemma smoothAll_eq (alpha : ℚ) (estimate : Nat) (Ts : List Nat) :
    smoothAll alpha estimate Ts = floorAverages alpha estimate Ts := rfl

/-- With at most one of them from the client, its connection is the only one. -/
lemma pairwise_notBoth {ip : List UInt8} {conns : List ProxyConn}
    (h : (conns.filter fun c => c.browser.ip = ip).length ≤ 1) : conns.Pairwise (NotBoth ip) := by
  induction conns with
  | nil => exact List.Pairwise.nil
  | cons c conns ih =>
    rw [List.filter_cons] at h
    split at h
    · have hnone : conns.filter (fun c => c.browser.ip = ip) = [] := by
        rw [List.length_cons] at h
        exact List.length_eq_zero_iff.mp (by omega)
      refine List.pairwise_cons.mpr ⟨fun d hd _ hip => ?_, ih (by rw [hnone]; exact Nat.zero_le _)⟩
      exact absurd (decide_eq_true hip) (List.filter_eq_nil_iff.mp hnone d hd)
    · rename_i hother
      exact List.pairwise_cons.mpr ⟨fun d _ hip => absurd (decide_eq_true hip) hother, ih h⟩

end Client

/-- The state from which the link of the client `q` is steady: one connection of the client is open, and uses
the estimate that is stored for it. -/
structure SteadyFrom (U : Set InAddr) (q : InAddr) (config : Config) (w₀ : ProxyState) (estimate : Nat) : Prop where
  reached : ∃ calls, LoggedRun (ClientOf U) (ProxyState.start config) w₀ calls
  single : (w₀.conns.filter fun c => c.browser.ip = inetNtoa q).length ≤ 1
  stored : storedTpt w₀.config.ipTptList (inetNtoa q) = estimate
  current : ∀ conn ∈ w₀.conns, conn.browser.ip = inetNtoa q → conn.tCurr = estimate

section Steady

variable {U : Set InAddr} {q : InAddr} {config : Config} {w₀ w : ProxyState} {estimate T k : Nat}
  {calls : List EstimateCall} {Ts : List Nat} {list : List Int} {b : Int}

/-- The connection uses what the throughputs make of the estimate. -/
lemma SteadyFrom.tCurr_eq (h : SteadyFrom U q config w₀ estimate) (hU : TextsApart U) (hq : q ∈ U)
    (hentries : EntriesFrom U config.ipTptList) (h0 : 0 ≤ config.alpha) (h1 : config.alpha ≤ 1)
    (hbound : estimate < 2 ^ 31) (hTs : ∀ T ∈ Ts, T < 2 ^ 31) (hrun : LoggedRun (ClientOf (U \ {q})) w₀ w calls)
    (hmeasured : measuredFor (inetNtoa q) calls = Ts) {conn : ProxyConn} (hconn : conn ∈ w.conns)
    (hip : conn.browser.ip = inetNtoa q) : conn.tCurr = floorAverages config.alpha estimate Ts := by
  obtain ⟨calls₀, hrun₀⟩ := h.reached
  obtain ⟨hhistory₀, huses₀, -⟩ := hrun₀.history hU hentries
  have hkeeps : Sessions.Keeps (Opens (ClientOf (U \ {q}))) Acts
      (History U config.alpha fun q => storedTpt w₀.config.ipTptList (inetNtoa q)) (UsesStored U q estimate)
      (NotBoth (inetNtoa q)) := keeps_stored hU hq estimate
  have hsound := hrun.keeps hkeeps []
    ⟨⟨hhistory₀.alpha_eq, hhistory₀.entries, fun _ _ => rfl⟩, fun c hc => ?_, pairwise_notBoth h.single⟩
  · obtain ⟨hhistory, hown, -⟩ := hsound
    rw [List.nil_append] at hhistory hown
    have hcurr := (hown conn hconn).2 hip
    have hstored := hhistory.stored q hq
    change storedTpt w.config.ipTptList _ = smoothAll _ _ (measuredFor _ calls) at hstored
    change conn.tCurr = if measuredFor _ calls = [] then estimate else castInt (storedTpt w.config.ipTptList _) at hcurr
    have hbelow : floorAverages config.alpha estimate Ts ≤ 2 ^ 31 - 1 :=
      floorAverages_le h0 h1 (Nat.le_sub_one_of_lt hbound) fun T hT => Nat.le_sub_one_of_lt (hTs T hT)
    rw [hmeasured, h.stored, smoothAll_eq] at hstored
    rw [hcurr, hmeasured, hstored, castInt_eq (by omega)]
    split
    · rename_i hnone
      rw [hnone]
      rfl
    · rfl
  · obtain ⟨x, hx, hipx, -⟩ := huses₀ c hc
    exact ⟨⟨x, hx, hipx⟩, fun hipq => h.current c hc hipq⟩

/-- The bitrate chosen after these chunks. -/
lemma SteadyFrom.isChoice (h : SteadyFrom U q config w₀ estimate) (hU : TextsApart U) (hq : q ∈ U)
    (hentries : EntriesFrom U config.ipTptList) (h0 : 0 ≤ config.alpha) (h1 : config.alpha ≤ 1)
    (hbound : estimate < 2 ^ 31) (hTs : ∀ T ∈ Ts, T < 2 ^ 31)
    (hchosen : ChosenOn (ClientOf (U \ {q})) w₀ (inetNtoa q) Ts list b) :
    IsChoice list (floorAverages config.alpha estimate Ts) b := by
  obtain ⟨w, calls, hrun, hmeasured, conn, hconn, hip, data, r, request, hcall, hforwarded, htype, rfl, rfl⟩ := hchosen
  obtain ⟨calls₀, hrun₀⟩ := h.reached
  have hmono : ∀ ip, ClientOf (U \ {q}) ip → ClientOf U ip := fun ip ⟨x, hx, hipx⟩ => ⟨x, hx.1, hipx⟩
  rw [← h.tCurr_eq hU hq hentries h0 h1 hbound hTs hrun hmeasured hconn hip]
  exact ((hrun₀.trans (hrun.mono hmono)).isChoice hconn hcall hforwarded htype).2

/-- The bitrate chosen after `k` chunks with one throughput. -/
lemma SteadyFrom.isChoice_iterate (h : SteadyFrom U q config w₀ estimate) (hU : TextsApart U) (hq : q ∈ U)
    (hentries : EntriesFrom U config.ipTptList) (h0 : 0 ≤ config.alpha) (h1 : config.alpha ≤ 1)
    (hT : max T estimate < 2 ^ 31) (hchosen : ChosenAfter (ClientOf (U \ {q})) w₀ (inetNtoa q) T list k b) :
    IsChoice list ((floorAverage config.alpha T)^[k] estimate) b := by
  rw [← floorAverages_replicate]
  refine h.isChoice hU hq hentries h0 h1 ((le_max_right T estimate).trans_lt hT) (fun T' hT' => ?_)
    (chosenAfter_iff.mp hchosen)
  rw [List.eq_of_mem_replicate hT']
  exact (le_max_left T estimate).trans_lt hT

end Steady

/-- From a state on in which a client has one connection, and all its chunks arrive with throughput `T`: the
bitrates chosen out of one list never go up and down, and from some chunk on they are the right choice for
one estimate, which is `T` or stops less than `1 / alpha` below it. -/
theorem steady_client_settles (U : Set InAddr) (hU : TextsApart U) (config : Config)
    (hentries : EntriesFrom U config.ipTptList) (h0 : 0 < config.alpha) (h1 : config.alpha ≤ 1) (q : InAddr)
    (hq : q ∈ U) (w₀ : ProxyState) (estimate T : Nat) (hfrom : SteadyFrom U q config w₀ estimate)
    (hT : max T estimate < 2 ^ 31) :
    ∃ (n E : Nat), (E = T ∨ estimate < T ∧ (T : ℚ) - 1 / config.alpha < E ∧ E < T) ∧
      ∀ list k b, ChosenAfter (ClientOf (U \ {q})) w₀ (inetNtoa q) T list k b →
        (n ≤ k → IsChoice list E b) ∧
        ∀ k' b', ChosenAfter (ClientOf (U \ {q})) w₀ (inetNtoa q) T list k' b' → k ≤ k' →
          (estimate ≤ T → b ≤ b') ∧ (T ≤ estimate → b' ≤ b) := by
  have hlimit : ∃ (n E : Nat), (E = T ∨ estimate < T ∧ (T : ℚ) - 1 / config.alpha < E ∧ E < T) ∧
      ∀ k, n ≤ k → (floorAverage config.alpha T)^[k] estimate = E := by
    by_cases hreaches : config.alpha = 1 ∨ T ≤ estimate
    · obtain ⟨n, hn⟩ := (iterate_reaches_iff h0 h1).mpr hreaches
      exact ⟨n, T, Or.inl rfl, hn⟩
    · obtain ⟨hne, hlt⟩ := not_or.mp hreaches
      obtain ⟨n, E, hnear, hbelow, hn⟩ := iterate_stops_below h0 (lt_of_le_of_ne h1 hne) (not_le.mp hlt)
      exact ⟨n, E, Or.inr ⟨not_le.mp hlt, hnear, hbelow⟩, hn⟩
  obtain ⟨n, E, hE, hn⟩ := hlimit
  refine ⟨n, E, hE, fun list k b hchosen => ?_⟩
  have hchoice := hfrom.isChoice_iterate hU hq hentries h0.le h1 hT hchosen
  refine ⟨fun hk => by rwa [hn k hk] at hchoice, fun k' b' hchosen' hle => ?_⟩
  have hchoice' := hfrom.isChoice_iterate hU hq hentries h0.le h1 hT hchosen'
  exact ⟨fun hbelow => hchoice.mono (iterate_monotone h0.le h1 hbelow hle) hchoice',
    fun habove => hchoice'.mono (iterate_antitone h0.le h1 habove hle) hchoice⟩

section Example

/-- Two clients are connected. -/
def twoConnected : ProxyState :=
  ⟨tickingConfig, [proxyConnCreate tickingConfig (bytes "2.0.0.2") (some 6),
    proxyConnCreate tickingConfig (bytes "1.0.0.1") (some 5)], []⟩

lemma steadyFrom_twoConnected : SteadyFrom twoClients ⟨1, 0, 0, 1⟩ tickingConfig twoConnected 0 where
  reached := by
    have hevents : runEvents (ProxyState.start tickingConfig) (chunkEvents.take 2) = some (twoConnected, []) := rfl
    refine ⟨[], loggedRun_of_events (fun ip serverFd h => ?_) hevents⟩
    exact chunkEvents_clients ip serverFd (List.mem_of_mem_take h)
  single := by decide
  stored := by decide
  current := by
    intro conn hconn _
    simp only [twoConnected, List.mem_cons, List.not_mem_nil, or_false] at hconn
    rcases hconn with rfl | rfl <;> rfl

/-- A byte a millisecond for one of them. -/
theorem steady_client_settles_chunk :
    ∃ list b, ChosenAfter (ClientOf (twoClients \ {⟨1, 0, 0, 1⟩})) twoConnected (inetNtoa ⟨1, 0, 0, 1⟩) 8 list 1 b ∧
      ∃ (n E : Nat), (E = 8 ∨ 0 < 8 ∧ ((8 : Nat) : ℚ) - 1 / tickingConfig.alpha < E ∧ E < 8) ∧
        (n ≤ 1 → IsChoice list E b) := by
  have h : ((runEvents twoConnected (chunkEvents.drop 2)).bind fun p => (p.1.conns[1]?).bind fun conn =>
      (handlerBrowser p.1.config conn chunkData).bind fun r => r.forwarded.map fun request =>
        (measuredFor (bytes "1.0.0.1") p.2, conn.browser.ip, checkType request)) =
      some ([8], bytes "1.0.0.1", .chunk) := by
    decide +kernel
  obtain ⟨⟨w, calls⟩, hevents, h⟩ := Option.bind_eq_some_iff.mp h
  obtain ⟨conn, hconn, h⟩ := Option.bind_eq_some_iff.mp h
  obtain ⟨r, hcall, h⟩ := Option.bind_eq_some_iff.mp h
  obtain ⟨request, hforwarded, h⟩ := Option.map_eq_some_iff.mp h
  simp only [Prod.mk.injEq] at h
  obtain ⟨hmeasured, hip, htype⟩ := h
  have hrun : LoggedRun (ClientOf (twoClients \ {⟨1, 0, 0, 1⟩})) twoConnected w calls :=
    loggedRun_of_events (fun ip serverFd h => by simp [chunkEvents] at h) hevents
  have hchosen : ChosenAfter (ClientOf (twoClients \ {⟨1, 0, 0, 1⟩})) twoConnected (inetNtoa ⟨1, 0, 0, 1⟩) 8
      (chooseList w.config conn) 1 r.conn.bitrate :=
    ⟨w, calls, hrun, hmeasured, conn, List.mem_of_getElem? hconn, hip, chunkData, r, request, hcall, hforwarded, htype,
      rfl, rfl⟩
  have halpha : tickingConfig.alpha = 1 / 2 := rfl
  obtain ⟨n, E, hE, hall⟩ := steady_client_settles twoClients twoClients_apart tickingConfig
    (fun e he => (List.not_mem_nil he).elim) (by norm_num [halpha]) (by norm_num [halpha]) ⟨1, 0, 0, 1⟩ (Or.inl rfl)
    twoConnected 0 8 steadyFrom_twoConnected (by decide)
  exact ⟨_, _, hchosen, n, E, hE, (hall _ 1 _ hchosen).1⟩

end Example

end VideoCDN.Proxy
