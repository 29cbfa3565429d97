import VideoCDN.Proxy.Relaying
import VideoCDN.Reference.IterLog

/-!
# The log of the proxy

`estimate_throughput` writes a line for every chunk. What it knows of the chunk is in the connection, where the
next chunk request overwrites it.
-/

namespace VideoCDN.Proxy

open CString Buffer Http Inet Refinement Reference

/-- What is logged of a chunk; the duration is in milliseconds. -/
structure ChunkRecord where
  time : Nat
  duration : Nat
  tPut : Nat
  avgTput : Nat
  bitrate : Int
  chunkName : List UInt8

/-- What `estimate_throughput` hands to `log_record`, apart from the server's address. -/
def chunkRecord (config : Config) (conn : ProxyConn) (chunkSize : Nat) : Option ChunkRecord := do
  let (tFinish, config) := config.getMillTime
  let duration := (tFinish + 2 ^ 64 - conn.tS) % 2 ^ 64
  let T ← measuredTpt chunkSize duration
  let (_, tCurrent) ← updateEstimate config.alpha config.ipTptList conn.browser.ip T
  let (_, chunkName) ← replaceUriBitrate chunkNameSize conn.server.chunkName conn.bitrate
  return ⟨tFinish / 1000, duration, T, tCurrent, conn.bitrate, chunkName⟩

/-- `log_record`: the line is appended to the file. The text of the duration has six decimals. -/
def logRecord (seconds : Nat → List UInt8) (serverIp file : List UInt8) (r : ChunkRecord) : List UInt8 :=
  file ++ (decimal r.time ++ [32] ++ seconds r.duration ++ [32] ++ decimal r.tPut ++ [32] ++ decimal r.avgTput ++
    [32] ++ decimalInt r.bitrate ++ [32] ++ cstr serverIp ++ [32] ++ cstr r.chunkName ++ [10])

/-- The lines of a connection. -/
def chunkLog (seconds : Nat → List UInt8) (serverIp : List UInt8) (records : List ChunkRecord) : List UInt8 :=
  records.foldl (logRecord seconds serverIp) []

/-! ## Records -/

lemma estimateThroughput_record {config config' : Config} {conn conn' : ProxyConn} {chunkSize : Nat}
    (h : estimateThroughput config conn chunkSize = some (config', conn')) :
    ∃ r, chunkRecord config conn chunkSize = some r ∧ r.bitrate = conn.bitrate ∧ conn'.bitrate = conn.bitrate ∧
      conn'.server.chunkName = r.chunkName ∧
      ∃ ret, replaceUriBitrate chunkNameSize conn.server.chunkName conn.bitrate = some (ret, r.chunkName) := by
  obtain ⟨T, list, tCurrent, ret, chunkName, hT, hupdate, hname, rfl, rfl⟩ := estimateThroughput_eq_some h
  refine ⟨⟨config.getMillTime.1 / 1000, (config.getMillTime.1 + 2 ^ 64 - conn.tS) % 2 ^ 64, T, tCurrent, conn.bitrate,
    chunkName⟩, ?_, rfl, rfl, rfl, ret, hname⟩
  simp only [chunkRecord, hT, hupdate, hname, Option.bind_eq_bind, Option.bind_some, Option.pure_def]

lemma chunkUri_split (P digits s f : List UInt8) : chunkUri P digits s f =
    47 :: P ++ 47 :: digits ++ (bytes "Seg" ++ (s ++ (bytes "-Frag" ++ f))) := by
  simp [chunkUri]

/-- The digits of the name are replaced by the bitrate. -/
lemma cstr_renamed {buf buf' P digits s f : List UInt8} {bitrate ret : Int}
    (hbuf : cstr buf = chunkUri P digits s f) (hP : ¬bytes "Seg" <:+: P) (hslash : 47 ∉ digits) (hseg : 83 ∉ digits)
    (h : replaceUriBitrate chunkNameSize buf bitrate = some (ret, buf')) :
    cstr buf' = chunkUri P (decimalInt bitrate) s f := by
  have hpre : ¬bytes "Seg" <:+: 47 :: P := by
    rw [List.infix_cons_iff]
    rintro (hhere | hinfix)
    · exact absurd (List.cons_prefix_cons.mp hhere).1 (by decide)
    · exact hP hinfix
  have hfound := strstr_seg (s ++ (bytes "-Frag" ++ f)) hpre hseg
  rw [← List.cons_append, ← List.append_assoc, ← chunkUri_split] at hfound
  have hnew : IsString (chunkUri P (decimalInt bitrate) s f) := by
    have hstring := isString_cstr buf
    rw [hbuf, chunkUri_split] at hstring
    rw [chunkUri_split]
    refine IsString.append (fun c hc => ?_) fun c hc => hstring c (List.mem_append_right _ hc)
    simp only [List.mem_append, List.mem_cons] at hc
    rcases hc with (rfl | hc) | rfl | hc
    · decide
    · exact hstring c (by simp [hc])
    · decide
    · exact isString_decimalInt bitrate c hc
  have htake : (chunkUri P digits s f).take (47 :: P ++ 47 :: digits).length = 47 :: P ++ 47 :: digits := by
    rw [chunkUri_split, List.take_left]
  have hdrop : (chunkUri P digits s f).drop (47 :: P ++ 47 :: digits).length =
      bytes "Seg" ++ (s ++ (bytes "-Frag" ++ f)) := by
    rw [chunkUri_split, List.drop_left]
  have hdir : (chunkUri P digits s f).take (47 :: P).length = 47 :: P := by
    rw [chunkUri_split, List.append_assoc, List.take_left]
  unfold replaceUriBitrate at h
  simp only [hbuf, hfound, htake, hdrop, lastSlash_append_cons _ hslash, hdir] at h
  rw [← List.cons_append, ← List.append_assoc, ← chunkUri_split] at h
  split at h
  · cases h
  · rename_i hfits
    obtain ⟨-, rfl⟩ := Prod.mk.inj (Option.some.inj h)
    have hwhole : (chunkUri P (decimalInt bitrate) s f).take (maxReqSize - 1) =
        chunkUri P (decimalInt bitrate) s f := by
      apply List.take_of_length_le
      rw [List.length_take, chunkNameSize, maxReqSize] at hfits
      rw [maxReqSize]
      omega
    rw [hwhole, put_zero, List.append_assoc, List.singleton_append]
    exact cstr_append_zero _ _ hnew

/-! ## What a record names -/

/-- The record has the bitrate and the name of the chunk that the text asks for. -/
def NamesChunk (text : List UInt8) (r : ChunkRecord) : Prop :=
  ∃ (request : Request) (P s f : List UInt8), request.IsClean ∧
    text = chunkText request P (decimalInt r.bitrate) s f ∧ cstr r.chunkName = chunkUri P (decimalInt r.bitrate) s f

/-- What the connection knows is of the chunk that the text asks for; in the name there may be other digits. -/
def Remembers (conn : ProxyConn) (text : List UInt8) : Prop :=
  ∃ (request : Request) (P digits s f : List UInt8), request.IsClean ∧
    text = chunkText request P (decimalInt conn.bitrate) s f ∧ cstr conn.server.chunkName = chunkUri P digits s f ∧
    ¬bytes "Seg" <:+: P ∧ 47 ∉ digits ∧ 83 ∉ digits

lemma Remembers.congr {conn conn' : ProxyConn} {text : List UInt8} (h : Remembers conn text)
    (hbitrate : conn'.bitrate = conn.bitrate) (hname : conn'.server.chunkName = conn.server.chunkName) :
    Remembers conn' text := by
  unfold Remembers
  rw [hbitrate, hname]
  exact h

/-- A chunk is logged under the name that was asked for, which stays in the connection. -/
lemma Remembers.record {config config' : Config} {conn conn' : ProxyConn} {text : List UInt8} {chunkSize : Nat}
    (h : Remembers conn text) (hestimate : estimateThroughput config conn chunkSize = some (config', conn')) :
    ∃ r, chunkRecord config conn chunkSize = some r ∧ NamesChunk text r ∧ Remembers conn' text := by
  obtain ⟨request, P, digits, s, f, hclean, htext, hname, hP, hslash, hseg⟩ := h
  obtain ⟨r, hr, hbitrate, hbitrate', hname', ret, hreplace⟩ := estimateThroughput_record hestimate
  have hnamed := cstr_renamed hname hP hslash hseg hreplace
  refine ⟨r, hr, ⟨request, P, s, f, hclean, by rw [hbitrate, htext], by rw [hbitrate, hnamed]⟩,
    request, P, decimalInt conn.bitrate, s, f, hclean, by rw [hbitrate', htext], by rw [hname', hnamed], hP, ?_, ?_⟩
  · exact notMem_decimalInt _ (by decide) (by decide)
  · exact notMem_decimalInt _ (by decide) (by decide)

/-- A chunk request is remembered as it was sent. -/
lemma forwardChunk_remembers {config config' : Config} {conn conn' : ProxyConn} {request : Request} {sent : List Sent}
    (hclean : request.IsClean) {bitrate : Int}
    (hbitrate : selectBitrate (chooseList config conn) conn.tCurr = some bitrate)
    {P digits s f : List UInt8} (h : Rewritable request bitrate P digits s f)
    (hforward : forwardChunk config conn request = some (config', conn', sent)) :
    ∃ text, sentTo .server sent = [text] ∧ Remembers conn' text := by
  have hsent := forwardChunk_sent hclean hbitrate h hforward
  obtain ⟨bitrate', text, chunkName, ret, newBuf, hbitrate', -, hname, -, -, rfl, -⟩ := forwardChunk_eq_some hforward
  obtain rfl := Option.some.inj (hbitrate.symm.trans hbitrate')
  have hcstr : cstr chunkName = chunkUri P digits s f := by
    unfold getVideoName at hname
    split at hname
    · cases hname
    · obtain rfl := Option.some.inj hname
      rw [put_zero, List.append_assoc, List.singleton_append, cstr_append_zero _ _ hclean.uri, h.uri]
  refine ⟨_, by rw [hsent]; rfl, request, P, digits, s, f, hclean, rfl, hcstr, h.directory, ?_, ?_⟩
  · exact notMem_digits h.isDigits (by decide)
  · exact notMem_digits h.isDigits (by decide)

/-- A request that is forwarded: one for a chunk is remembered, others leave what is remembered. -/
lemma handlerBrowser_remembers {config : Config} {conn : ProxyConn} {data : List UInt8} {r : BrowserResult}
    {request : Request} (h : handlerBrowser config conn data = some r) (hforwarded : r.forwarded = some request)
    (hchunk : checkType request = .chunk → ∃ bitrate P digits s f,
      selectBitrate (chooseList config conn) conn.tCurr = some bitrate ∧ Rewritable request bitrate P digits s f) :
    if checkType request = .chunk then ∃ text, sentTo .server r.sent = [text] ∧ Remembers r.conn text
    else ∀ text, Remembers conn text → Remembers r.conn text := by
  obtain ⟨buf, request', -, hparse, ⟨-, rfl⟩ | ⟨-, -, rfl⟩ | ⟨-, -, ⟨config', conn', sent⟩, hforward, rfl⟩⟩ :=
    handlerBrowser_cases h
  · cases hforwarded
  · cases hforwarded
  · obtain rfl := Option.some.inj hforwarded
    by_cases htype : checkType request' = .chunk
    · obtain ⟨bitrate, P, digits, s, f, hbitrate, hrewritable⟩ := hchunk htype
      rw [forwardRequest, htype] at hforward
      obtain ⟨text, hsent, hremembers⟩ :=
        forwardChunk_remembers (parse_isClean hparse) (by exact hbitrate) hrewritable hforward
      rw [if_pos htype]
      exact ⟨text, hsent, hremembers.congr rfl rfl⟩
    · rw [if_neg htype]
      intro text htext
      rcases forwardRequest_cases hforward with ⟨hchunk', -⟩ | ⟨-, -, -, -, rfl, -⟩ | ⟨-, -, -, -, -, rfl, -⟩
      · exact absurd hchunk' htype
      · exact htext.congr rfl rfl
      · exact htext.congr rfl rfl

/-- A handler other than that of a chunk leaves what is remembered. -/
lemma run_remembers {handler : Handler} {config config' : Config} {conn conn' : ProxyConn} {body : List UInt8}
    {sent : List Sent} (hkind : handler ≠ .chunk) (h : handler.run config conn body = some (config', conn', sent)) :
    conn'.bitrate = conn.bitrate ∧ conn'.server.chunkName = conn.server.chunkName := by
  rcases Handler.run_cases h with ⟨-, rfl, -⟩ | ⟨-, hf4m⟩ | ⟨hchunk, -⟩
  · exact ⟨rfl, rfl⟩
  · obtain ⟨list, ret, saved, -, -, -, rfl, -⟩ := handleRespF4m_eq_some hf4m
    exact ⟨rfl, rfl⟩
  · exact absurd hchunk hkind

lemma remembers_of_core {conn conn' : ProxyConn} {text : List UInt8} (h : Remembers conn' text)
    (hcore : conn.core = conn'.core) : Remembers conn text := by
  have hbitrate : conn.core.bitrate = conn'.core.bitrate := by rw [hcore]
  have hname : conn.core.server.chunkName = conn'.core.server.chunkName := by rw [hcore]
  exact h.congr hbitrate hname

/-! ## Runs -/

namespace Relaying

variable {origin : List UInt8 → Response → Prop} {s s' : Relaying} {config : Config}

/-- What is seen of an event in the log: the requests for chunks, and the records. -/
def entryOf (s : Relaying) (config : Config) (e : Event) (s' : Relaying) : Option (Label (List UInt8) ChunkRecord) :=
  match e with
  | .request _ request => if checkType request = .chunk then s'.asked.getLast?.map .request else none
  | .response x _ =>
    if s.world.conn.state = .chunk then (chunkRecord config s.world.conn x.body.length).map .answer else none

/-- The steps that meet the conditions, with what is seen of them in the log. -/
def Logging (origin : List UInt8 → Response → Prop) (s : Relaying) (l : Option (Label (List UInt8) ChunkRecord))
    (s' : Relaying) : Prop :=
  ∃ config e label, Step origin s config e label s' ∧ s.Meets config e ∧ l = s.entryOf config e s'

/-- A connection and the last chunk request. -/
structure Logs (s : Relaying) (last : Option (List UInt8)) : Prop where
  rel : ∃ outstanding, Rel s outstanding
  remembers : ∀ text, last = some text → Remembers s.world.conn text
  asked : last = none → ∀ o ∈ s.world.queue, o.kind ≠ .chunk

lemma state_eq_chunk_iff {state : State} {handler : Handler} (h : state.handler = some handler) :
    state = .chunk ↔ handler = .chunk := by
  cases state with
  | uk => cases h
  | html | f4m | f4mNolist | chunk =>
    obtain rfl := Option.some.inj h
    decide

/-- A response is handled as what was asked for first. -/
lemma response_handled {outstanding : List (List UInt8)} (hrel : Rel s outstanding) {x : Response}
    {chunks : List (List UInt8)} {run : ServerRun} {o : Outstanding} {queue : List Outstanding}
    (hmeets : s.Meets config (.response x chunks)) (hqueue : s.world.queue = o :: queue) (hchunks : AreResults chunks)
    (hsplit : chunks.flatten = x.text) (hrun : serverRun config s.world.conn chunks = some run) :
    (s.world.conn.state = .chunk ↔ o.kind = .chunk) ∧ ∃ conn',
      o.kind.run config (s.world.conn.withResponse x.header) x.body = some (run.config, conn', run.sent) ∧
        run.conn.core = conn'.core := by
  have hinv := inv_withConfig hrel.inv config
  obtain ⟨hhandled, -⟩ := serverRun_response hinv.server hmeets.1 hchunks hsplit hrun
  obtain ⟨handler, conn', hstate, -, hhandler, hcore⟩ := serverRun_one hrun hhandled
  have ho : o ∈ s.world.queue := by rw [hqueue]; exact List.mem_cons_self
  have hkind : s.world.conn.state.handler = some o.kind := hrel.inv.state o ho
  obtain rfl : handler = o.kind := Option.some.inj (hstate.symm.trans hkind)
  exact ⟨state_eq_chunk_iff hkind, conn', hhandler, hcore⟩

lemma run_chunk {config' : Config} {conn conn' : ProxyConn} {body : List UInt8} {sent : List Sent}
    (h : Handler.chunk.run config conn body = some (config', conn', sent)) :
    estimateThroughput config conn body.length = some (config', conn') := by
  obtain ⟨-, -, -, -, hne⟩ | ⟨hf4m, -⟩ | ⟨-, hestimate, -⟩ := Handler.run_cases h
  · exact absurd rfl hne
  · cases hf4m
  · exact hestimate

/-- The log is a journal of the chunk requests. -/
theorem refines_journal (origin : List UInt8 → Response → Prop) :
    Refines (Logging origin) (Journal NamesChunk) Logs := by
  rintro s last l s' ⟨⟨outstanding, hrel⟩, hremembers, hasked₀⟩ ⟨config, e, label, hstep, hmeets, rfl⟩
  have hrel' : ∃ outstanding, Rel s' outstanding := by
    rcases refines_relay origin _ _ _ _ hrel ⟨config, e, hstep, hmeets⟩ with ⟨-, hrel'⟩ | ⟨outstanding', -, hrel'⟩
    · exact ⟨_, hrel'⟩
    · exact ⟨_, hrel'⟩
  cases hstep with
  | request data request r hdata hcall hret hforwarded =>
    have hbrowser := handlerBrowser_remembers hcall hforwarded hmeets.2.2
    by_cases htype : checkType request = .chunk
    · rw [if_pos htype] at hbrowser
      obtain ⟨text, hsent, htext⟩ := hbrowser
      have hlast : (s.afterRequest config data request r).asked.getLast? = some text := by
        change (s.asked ++ sentTo .server r.sent).getLast? = _
        rw [hsent, List.getLast?_append]
        rfl
      right
      refine ⟨some text, ?_, hrel', fun text' h => ?_, fun h => by cases h⟩
      · rw [entryOf, if_pos htype, hlast]
        exact .request last text
      · obtain rfl := Option.some.inj h
        exact htext
    · rw [if_neg htype] at hbrowser
      left
      refine ⟨if_neg htype, hrel', fun text h => hbrowser text (hremembers text h), fun h o ho => ?_⟩
      rcases List.mem_append.mp ho with ho | ho
      · exact hasked₀ h o ho
      · rw [List.mem_singleton.mp ho]
        cases hkind : checkType request with
        | chunk => exact absurd hkind htype
        | html | f4m | uk => exact fun h => by cases h
  | response x chunks run o queue text asked hqueue hasked horigin hchunks hsplit hrun =>
    obtain ⟨hstate, conn', hhandler, hcore⟩ := response_handled hrel hmeets hqueue hchunks hsplit hrun
    by_cases hchunk : o.kind = .chunk
    · cases hlast : last with
      | none => exact absurd hchunk (hasked₀ hlast o (by rw [hqueue]; exact List.mem_cons_self))
      | some asked₀ =>
        have hbefore : Remembers (s.world.conn.withResponse x.header) asked₀ :=
          (hremembers asked₀ hlast).congr rfl rfl
        rw [hchunk] at hhandler
        obtain ⟨record, hrecord, hnames, hafter⟩ := hbefore.record (run_chunk hhandler)
        have hsame : chunkRecord config s.world.conn x.body.length = some record := hrecord
        right
        refine ⟨some asked₀, ?_, hrel', fun text' h => ?_, fun h => by cases h⟩
        · rw [entryOf, if_pos (hstate.mpr hchunk), hsame]
          exact .answer asked₀ record hnames
        · obtain rfl := Option.some.inj h
          exact remembers_of_core hafter hcore
    · obtain ⟨hbitrate, hname⟩ := run_remembers hchunk hhandler
      left
      refine ⟨if_neg fun h => hchunk (hstate.mp h), hrel', fun text' h =>
        remembers_of_core ((hremembers text' h).congr hbitrate hname) hcore, fun h o₁ ho₁ => ?_⟩
      rcases List.mem_append.mp ho₁ with ho₁ | ho₁
      · exact hasked₀ h o₁ (by rw [hqueue]; exact List.mem_cons_of_mem o ho₁)
      · obtain ⟨data, -, rfl⟩ := List.mem_map.mp ho₁
        exact fun h => by cases h

lemma logs_start (config : Config) (ip : List UInt8) (serverFd : Option Nat) :
    Logs (start config (proxyConnCreate config ip serverFd)) none where
  rel := ⟨[], rel_start config ip serverFd⟩
  remembers := fun text h => by cases h
  asked := fun _ o ho => absurd ho List.not_mem_nil

/-- The answers to chunk requests so far. -/
def answeredChunks (s : Relaying) : Nat := s.world.log.countP fun a => a.request.kind = .chunk

/-- The record of an answer, if it is one to a chunk request. -/
lemma records_step {l : Option (Label (List UInt8) ChunkRecord)} {outstanding : List (List UInt8)}
    (hrel : Rel s outstanding) (hstep : Logging origin s l s') :
    s'.answeredChunks = s.answeredChunks + (l.toList.filterMap Label.answer?).length := by
  obtain ⟨config, e, label, hstep, hmeets, rfl⟩ := hstep
  cases hstep with
  | request data request r hdata hcall hret hforwarded =>
    have hnone : ((s.entryOf config (.request data request) (s.afterRequest config data request r)).toList.filterMap
        Label.answer?) = [] := by
      rw [entryOf]
      split
      · cases (s.afterRequest config data request r).asked.getLast? <;> rfl
      · rfl
    rw [hnone]
    rfl
  | response x chunks run o queue text asked hqueue hasked horigin hchunks hsplit hrun =>
    obtain ⟨hstate, conn', hhandler, hcore⟩ := response_handled hrel hmeets hqueue hchunks hsplit hrun
    change (s.world.log ++ [_]).countP _ = _
    rw [List.countP_append, List.countP_singleton]
    by_cases hchunk : o.kind = .chunk
    · rw [hchunk] at hhandler
      obtain ⟨record, hrecord, -⟩ := estimateThroughput_record (run_chunk hhandler)
      have hsame : chunkRecord config s.world.conn x.body.length = some record := hrecord
      rw [entryOf, if_pos (hstate.mpr hchunk), hsame, if_pos (decide_eq_true hchunk)]
      rfl
    · rw [entryOf, if_neg fun h => hchunk (hstate.mp h), if_neg (by simpa using hchunk)]
      rfl

/-- The run: one record for each of them. -/
lemma records_run {config : Config} {ip : List UInt8} {serverFd : Option Nat} {s : Relaying}
    {trace : List (Label (List UInt8) ChunkRecord)}
    (h : Traces (Logging origin) (start config (proxyConnCreate config ip serverFd)) trace s) :
    (trace.filterMap Label.answer?).length = s.answeredChunks := by
  induction h with
  | refl => rfl
  | tail hrun hstep ih =>
    obtain ⟨last, -, ⟨outstanding, hrel⟩, -⟩ := (refines_journal origin).traces (logs_start config ip serverFd) hrun
    rw [List.filterMap_append, List.length_append, ih, records_step hrel hstep]

end Relaying

/-- What is read back of a record. -/
def ChunkRecord.fields (seconds : Nat → List UInt8) (serverIp : List UInt8) (r : ChunkRecord) : List (List UInt8) :=
  [decimal r.time, seconds r.duration, decimal r.tPut, decimal r.avgTput, decimalInt r.bitrate, cstr serverIp,
    cstr r.chunkName]

lemma foldl_logRecord (seconds : Nat → List UInt8) (serverIp file : List UInt8) (records : List ChunkRecord) :
    records.foldl (logRecord seconds serverIp) file =
      file ++ LogText.writeLog 32 10 (records.map fun r => r.fields seconds serverIp) := by
  induction records generalizing file with
  | nil => exact (List.append_nil file).symm
  | cons r records ih =>
    have hline : logRecord seconds serverIp file r = file ++ LogText.writeLine 32 10 (r.fields seconds serverIp) := by
      simp [logRecord, LogText.writeLine, ChunkRecord.fields, List.intercalate_cons_cons]
    rw [List.foldl_cons, ih, hline, List.append_assoc]
    rfl

lemma chunkLog_read_iff {seconds : Nat → List UInt8} (hseconds : ∀ d, IsLogWord (seconds d)) (server : InAddr)
    (records : List ChunkRecord) :
    iterLog (chunkLog seconds (inetNtoa server) records) =
        records.map (fun r => r.fields seconds (inetNtoa server)) ↔
      ∀ r ∈ records, IsLogWord (cstr r.chunkName) := by
  have hfields : ∀ fields ∈ records.map fun r => r.fields seconds (inetNtoa server), fields ≠ [] := by
    intro fields h
    obtain ⟨r, -, rfl⟩ := List.mem_map.mp h
    exact List.cons_ne_nil _ _
  rw [chunkLog, foldl_logRecord, List.nil_append, iterLog_writeLog_iff hfields]
  constructor
  · intro h r hr
    exact h _ (List.mem_map_of_mem hr) _ (by simp [ChunkRecord.fields])
  · -- the other fields are words in any case
    intro h fields hfields w hw
    obtain ⟨r, hr, rfl⟩ := List.mem_map.mp hfields
    simp only [ChunkRecord.fields, cstr_inetNtoa, List.mem_cons, List.not_mem_nil, or_false] at hw
    rcases hw with rfl | rfl | rfl | rfl | rfl | rfl | rfl
    · exact isLogWord_decimal _
    · exact hseconds _
    · exact isLogWord_decimal _
    · exact isLogWord_decimal _
    · exact isLogWord_decimalInt _
    · exact isLogWord_inetNtoa server
    · exact h r hr

/-- In every run of a connection whose requests and responses meet the conditions, each answered chunk is logged once,
with the bitrate and the name that the last chunk request to the server had; and the tests read the records back
if and only if each name is a word. -/
theorem chunk_log_names_requests (origin : List UInt8 → Response → Prop) (config : Config) (ip : List UInt8)
    (serverFd : Option Nat) (s : Relaying) (trace : List (Label (List UInt8) ChunkRecord))
    (hrun : Traces (Relaying.Logging origin) (Relaying.start config (proxyConnCreate config ip serverFd)) trace s)
    (seconds : Nat → List UInt8) (hseconds : ∀ d, IsLogWord (seconds d)) (server : InAddr) :
    (trace.filterMap Label.answer?).length = s.answeredChunks ∧
      (∀ pre r post, trace = pre ++ .answer r :: post → ∃ text, latest pre = some text ∧ NamesChunk text r) ∧
      (iterLog (chunkLog seconds (inetNtoa server) (trace.filterMap Label.answer?)) =
          (trace.filterMap Label.answer?).map (fun r => r.fields seconds (inetNtoa server)) ↔
        ∀ r ∈ trace.filterMap Label.answer?, IsLogWord (cstr r.chunkName)) := by
  obtain ⟨last, hjournal, -⟩ :=
    (Relaying.refines_journal origin).traces (Relaying.logs_start config ip serverFd) hrun
  exact ⟨Relaying.records_run hrun, (journal_names_latest hjournal).2, chunkLog_read_iff hseconds server _⟩

section Example

/-- A configuration with one bitrate and a clock that moves on at every reading. -/
def loggingConfig : Config := ⟨1 / 2, [500], [], id, 0⟩

def loggingConn : ProxyConn := proxyConnCreate loggingConfig (bytes "1.0.0.1") (some 5)

lemma isHeaderSection_chunkData : IsHeaderSection chunkData :=
  ⟨[bytes "GET /v/100Seg1-Frag1 HTTP/1.1", bytes "Host: b"], by decide, by decide, rfl⟩

/-- A chunk is requested, and the server answers. -/
lemma chunkExchange : ∃ r run, handlerBrowser loggingConfig loggingConn chunkData = some r ∧ ¬r.ret < 0 ∧
    r.forwarded = some chunkRequest ∧ serverRun r.config r.conn [pageResponse.text] = some run ∧
    (respond r.config r.conn pageResponse.header pageResponse.body).isSome ∧ (sentTo .server r.sent).length = 1 ∧
    r.conn.state = .chunk ∧ (chunkRecord r.config r.conn pageResponse.body.length).isSome := by
  have h : ((handlerBrowser loggingConfig loggingConn chunkData).bind fun r =>
      (serverRun r.config r.conn [pageResponse.text]).map fun _ =>
        (r.forwarded, r.conn.state, (sentTo .server r.sent).length,
          (respond r.config r.conn pageResponse.header pageResponse.body).isSome,
          (chunkRecord r.config r.conn pageResponse.body.length).isSome, decide (r.ret < 0))) =
      some (some chunkRequest, .chunk, 1, true, true, false) := by
    decide +kernel
  obtain ⟨r, hcall, h⟩ := Option.bind_eq_some_iff.mp h
  obtain ⟨run, hrun, h⟩ := Option.map_eq_some_iff.mp h
  simp only [Prod.mk.injEq, decide_eq_false_iff_not] at h
  obtain ⟨hforwarded, hstate, hlength, hrespond, hrecord, hret⟩ := h
  exact ⟨r, run, hcall, hret, hforwarded, hrun, hrespond, hlength, hstate, hrecord⟩

/-- The duration in seconds, with six decimals. -/
def sixDecimals (d : Nat) : List UInt8 :=
  decimal (d / 1000) ++ 46 :: ((decimal (1000 + d % 1000)).drop 1 ++ List.replicate 3 48)

lemma isLogWord_sixDecimals (d : Nat) : IsLogWord (sixDecimals d) := by
  refine ⟨by simp [sixDecimals], fun c hc => ?_⟩
  simp only [sixDecimals, List.mem_append, List.mem_cons] at hc
  rcases hc with hc | rfl | hc | hc
  · exact (isLogWord_decimal _).2 c hc
  · decide
  · exact (isLogWord_decimal _).2 c (List.mem_of_mem_drop hc)
  · rw [List.eq_of_mem_replicate hc]
    decide

theorem chunk_log_names_requests_chunk :
    ∃ (s : Relaying) (trace : List (Label (List UInt8) ChunkRecord)) (text : List UInt8) (record : ChunkRecord),
      Traces (Relaying.Logging fun _ x => x = pageResponse) (Relaying.start loggingConfig loggingConn) trace s ∧
      trace = [.request text, .answer record] ∧ (trace.filterMap Label.answer?).length = s.answeredChunks ∧
      (∀ pre r post, trace = pre ++ .answer r :: post → ∃ text, latest pre = some text ∧ NamesChunk text r) ∧
      (iterLog (chunkLog sixDecimals (inetNtoa ⟨2, 0, 0, 1⟩) (trace.filterMap Label.answer?)) =
          (trace.filterMap Label.answer?).map (fun r => r.fields sixDecimals (inetNtoa ⟨2, 0, 0, 1⟩)) ↔
        ∀ r ∈ trace.filterMap Label.answer?, IsLogWord (cstr r.chunkName)) := by
  obtain ⟨r, run, hcall, hret, hforwarded, hrun, hrespond, hlength, hstate, hsome⟩ := chunkExchange
  obtain ⟨record, hrecord⟩ := Option.isSome_iff_exists.mp hsome
  obtain ⟨text, htext⟩ := List.length_eq_one_iff.mp hlength
  have hchunk : checkType chunkRequest = .chunk := by decide
  have hresults : AreResults [pageResponse.text] := by
    unfold AreResults
    decide
  have hmeets : (Relaying.start loggingConfig loggingConn).Meets loggingConfig (.request chunkData chunkRequest) := by
    refine ⟨⟨fun o ho => (List.not_mem_nil ho).elim, fun h => ?_⟩, fun h => ?_, fun _ => ?_⟩
    · rw [hchunk] at h
      cases h
    · rw [hchunk] at h
      cases h
    · exact ⟨500, bytes "v", bytes "100", bytes "1", bytes "1", by decide, rfl, by decide, by decide, isdigit_hundred,
        by decide⟩
  obtain ⟨s₁, hs₁⟩ : ∃ s₁, (Relaying.start loggingConfig loggingConn).afterRequest loggingConfig chunkData chunkRequest
    r = s₁ := ⟨_, rfl⟩
  have hqueue₁ : s₁.world.queue = [⟨.chunk, 0, false⟩] := by
    rw [← hs₁]
    rfl
  have hasked₁ : s₁.asked = [text] := by
    rw [← hs₁, ← htext]
    rfl
  have hconn₁ : s₁.world.conn = r.conn := by
    rw [← hs₁]
    rfl
  have hfirst := @Relaying.Step.request (fun _ x => x = pageResponse) (Relaying.start loggingConfig loggingConn)
    loggingConfig _ chunkRequest r isHeaderSection_chunkData hcall hret hforwarded
  rw [hs₁] at hfirst
  have hsecond := @Relaying.Step.response (fun _ x => x = pageResponse) s₁ r.config pageResponse [pageResponse.text]
    run _ [] text [] hqueue₁ hasked₁ rfl hresults (by simp) (hconn₁ ▸ hrun)
  have hmeets₂ : s₁.Meets r.config (.response pageResponse [pageResponse.text]) := by
    refine ⟨⟨pageResponse_uncut, pageResponse_length, ?_⟩, trivial⟩
    rwa [← hconn₁] at hrespond
  have htraces : Traces (Relaying.Logging fun _ x => x = pageResponse) (Relaying.start loggingConfig loggingConn) _ _ :=
    (Traces.refl.tail ⟨_, _, _, hfirst, hmeets, rfl⟩).tail ⟨_, _, _, hsecond, hmeets₂, rfl⟩
  have hrequest : (Relaying.start loggingConfig loggingConn).entryOf loggingConfig
      (.request chunkData chunkRequest) s₁ = some (.request text) := by
    rw [Relaying.entryOf, if_pos hchunk, hasked₁]
    rfl
  have hanswer : s₁.entryOf r.config (.response pageResponse [pageResponse.text])
      (s₁.afterResponse r.config ⟨.chunk, 0, false⟩ [] [] pageResponse run) = some (.answer record) := by
    rw [Relaying.entryOf, hconn₁, if_pos hstate, hrecord]
    rfl
  rw [hrequest, hanswer] at htraces
  exact ⟨_, _, text, record, htraces, rfl,
    chunk_log_names_requests _ loggingConfig (bytes "1.0.0.1") (some 5) _ _ htraces sixDecimals
      isLogWord_sixDecimals ⟨2, 0, 0, 1⟩⟩

end Example

end VideoCDN.Proxy
