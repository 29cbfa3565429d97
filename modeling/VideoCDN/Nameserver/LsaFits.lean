import VideoCDN.Nameserver.Startup

/-!
# Files that are read to their end

`parse_LSA_file` has no bound on the texts it copies: a sender and the neighbors of an installed line must fit the
`ip` of a node, a number an `int`, and a line the buffer of `fgets`. The names of the nodes are short, so that a
longer neighbor is always a new one.
-/

namespace VideoCDN.Nameserver

open CString LinkState Records

variable (junk : Junk) {t t' : Topo} {ip : List UInt8}

/-! ## The names of the nodes -/

/-- The names of the nodes fit their buffers. -/
def ShortNames (t : Topo) : Prop := ∀ p ∈ t.nodes.header, (t.heap p).ip.length < maxIpLen

lemma shortNames_init : ShortNames init := by simp [ShortNames, init]

lemma neighborNode_long (hshort : ShortNames t) {neighbor : List UInt8} (hlong : maxIpLen ≤ neighbor.length) :
    neighborNode junk t neighbor = none := by
  have hnone : existInList t.heap neighbor t.nodes.header = none := by
    apply (existInList_eq_none_iff _ _ _).mpr
    rintro p hp rfl
    exact absurd (hshort p hp) (Nat.not_lt.mpr hlong)
  rw [neighborNode_eq]
  unfold addNodeByIpWithNum
  rw [hnone]
  dsimp only
  rw [if_pos hlong]
  rfl

lemma ShortNames.node (hshort : ShortNames t) (hn : IsNamed t) {p : Nat}
    (h : neighborNode junk t ip = some (t', p)) : ip.length < maxIpLen ∧ ShortNames t' := by
  have hip : ip.length < maxIpLen := by
    by_contra hlong
    rw [neighborNode_long junk hshort (Nat.not_lt.mp hlong)] at h
    cases h
  refine ⟨hip, fun q hq => ?_⟩
  rcases neighborNode_cases junk h with ⟨rfl, -, -⟩ | ⟨-, rfl, -⟩
  · exact hshort q hq
  · rcases (mem_addNode junk ip q).mp hq with rfl | hq
    · rw [addNode_heap_next]
      exact hip
    · rw [addNode_heap_of_lt junk ip (hn.lt q hq)]
      exact hshort q hq

lemma ShortNames.sameNodes (hshort : ShortNames t) (h : SameNodes t t') : ShortNames t' := by
  intro p hp
  rw [h.nodes] at hp
  rw [h.ip]
  exact hshort p hp

lemma ShortNames.sameGraph (hshort : ShortNames t) (hn : IsNamed t) (h : SameGraph t t') : ShortNames t' := by
  intro p hp
  rw [h.nodes] at hp
  rw [h.heap p (hn.lt p hp)]
  exact hshort p hp

lemma ShortNames.round (hshort : ShortNames t) (hn : IsNamed t) {now i : Nat} {neighbor : List UInt8}
    (h : neighborRound junk now i neighbor t = some t') : neighbor.length < maxIpLen ∧ ShortNames t' := by
  simp only [neighborRound, Option.bind_eq_bind, Option.bind_eq_some_iff] at h
  obtain ⟨⟨t₁, p⟩, hnode, t₂, hreverse, hset⟩ := h
  obtain ⟨hfit, hshort₁⟩ := hshort.node junk hn hnode
  have hshort₂ := hshort₁.sameNodes (addReverseNeighbor_sameNodes hreverse)
  exact ⟨hfit, hshort₂.sameNodes (setNeighbor_sameNodes hset)⟩

/-- The loop copies every token it gets to. -/
lemma ShortNames.loop (hshort : ShortNames t) (hn : IsNamed t) {now rounds i : Nat} {tokens : List (List UInt8)}
    (h : neighborLoop junk now rounds i tokens t = some t') :
    (∀ n ∈ tokens.take rounds, n.length < maxIpLen) ∧ ShortNames t' := by
  induction rounds generalizing i tokens t with
  | zero =>
    obtain rfl := Option.some.inj h
    exact ⟨by simp, hshort⟩
  | succ rounds ih =>
    simp only [neighborLoop, Option.bind_eq_bind, Option.bind_eq_some_iff] at h
    obtain ⟨neighbor, hhead, t₁, hround, h⟩ := h
    obtain ⟨hfit, hshort₁⟩ := hshort.round junk hn hround
    obtain ⟨hrest, hshort₂⟩ := ih hshort₁ (neighborRound_grown junk hn hround).1 h
    obtain ⟨tail, rfl⟩ := List.head?_eq_some_iff.mp hhead
    refine ⟨?_, hshort₂⟩
    rw [List.take_succ_cons]
    exact List.forall_mem_cons.mpr ⟨hfit, hrest⟩

variable {best : List UInt8 → Option Nat}

/-- The neighbors of an installed line fit. -/
lemma ShortNames.updateNode (hshort : ShortNames t) (hknows : Knows t best) {neighbors : List UInt8} {seq : Nat}
    (hupdate : updateNode junk ip seq neighbors t = some t') :
    ((∀ r ∈ best ip, r < seq) →
      ∀ n ∈ (strtok neighbors).take (countCharNum neighbors 44 + 1), n.length < maxIpLen) ∧ ShortNames t' := by
  obtain ⟨t₁, now, t₂, hnode, hclient, hcases⟩ := updateNode_cases junk hupdate
  obtain ⟨hknows₂, -, -, hseq⟩ := hknows.sender junk hnode hclient
  have hshort₁ := (hshort.node junk hknows.named hnode).2
  have hn₁ := (neighborNode_grown junk hknows.named hnode).1
  have hshort₂ := hshort₁.sameGraph hn₁ (addClient_sameGraph junk hclient)
  rcases hcases with ⟨-, hloop⟩ | ⟨hle, rfl⟩
  · have hstart : ShortNames (startUpdate junk t₂ now seq (countCharNum neighbors 44 + 1)) := by
      intro p hp
      rw [startUpdate_ip]
      exact hshort₂ p hp
    have hn₃ := isNamed_startUpdate junk hknows₂.named now seq (countCharNum neighbors 44 + 1)
    obtain ⟨hfit, hshort₃⟩ := hstart.loop junk hn₃ hloop
    exact ⟨fun _ => hfit, hshort₃⟩
  · refine ⟨fun hnew => absurd ?_ hle, hshort₂⟩
    rw [hseq]
    cases hbest : best ip with
    | none =>
      simp only [Option.elim_none]
      omega
    | some r =>
      have hlt := hnew r hbest
      simp only [Option.elim_some]
      omega

lemma parseServerFile_shortNames {file : Option (List UInt8)} {ret : Int}
    (h : parseServerFile junk file init = some (ret, t)) : ShortNames t := by
  have hboth : Knows t (fun _ => none) ∧ ShortNames t := by
    apply parseServerFile_induct junk _ _ ⟨knows_init, shortNames_init⟩ h
    · intro t t' ip p ht hnode
      obtain ⟨hn, hgrown, -, -⟩ := neighborNode_grown junk ht.1.named hnode
      exact ⟨ht.1.grown hgrown hn, (ht.2.node junk ht.1.named hnode).2⟩
    · intro t t' ht hsame
      exact ⟨hsame.knows ht.1, ht.2.sameGraph ht.1.named hsame⟩
  exact hboth.2

/-! ## Files -/

/-- No line of a text is longer than `fgets` reads at once; all but the last one have a newline. -/
structure LinesShort (file : List UInt8) : Prop where
  ended : ∀ line ∈ (file.splitOn 10).dropLast, line.length + 1 < maxLineLen
  last : ∀ line ∈ (file.splitOn 10).getLast?, line.length < maxLineLen

/-- The texts of a file fit where they are copied: the senders, the numbers, the lines, and the neighbors of the
lines whose number is above those of all lines of their sender before. -/
structure FileFits (lines : List LsaLine) (file : List UInt8) : Prop where
  sender : ∀ l ∈ lines, l.sender.length < maxIpLen
  seq : ∀ l ∈ lines, l.seq < 2 ^ 31
  short : LinesShort file
  neighbors : ∀ i l, IsRecord LsaLine.sender LsaLine.seq lines i l → ∀ n ∈ l.neighbors, n.length < maxIpLen

variable {l : LsaLine} {lines : List LsaLine} {file rest : List UInt8}

lemma linesShort_nil : LinesShort [] := by
  constructor
  · simp
  · rintro line hline
    obtain rfl : [] = line := by simpa using hline
    decide

lemma ReadWhole.linesShort (h : ReadWhole l file rest) : LinesShort file ↔ LinesShort rest := by
  rcases h with ⟨rfl, hlen⟩ | ⟨rfl, rfl, hlen⟩
  · have hsplit := List.splitOn_append_cons_self_of_not_mem l.newline_notMem_text rest
    have hne := List.splitOn_ne_nil 10 rest
    have hended : ((l.text ++ 10 :: rest).splitOn 10).dropLast = l.text :: (rest.splitOn 10).dropLast := by
      rw [hsplit, List.dropLast_cons_of_ne_nil hne]
    have hlast : ((l.text ++ 10 :: rest).splitOn 10).getLast? = (rest.splitOn 10).getLast? := by
      rw [hsplit, List.getLast?_cons_of_ne_nil hne]
    constructor
    · intro h
      exact ⟨fun line hline => h.ended line (by simp [hended, hline]), by rw [← hlast]; exact h.last⟩
    · intro h
      refine ⟨?_, by rw [hlast]; exact h.last⟩
      rw [hended]
      exact List.forall_mem_cons.mpr ⟨hlen, h.ended⟩
  · have hsplit := List.splitOn_eq_singleton l.newline_notMem_text
    refine ⟨fun _ => linesShort_nil, fun _ => ⟨by simp [hsplit], ?_⟩⟩
    rw [hsplit]
    rintro line hline
    obtain rfl : l.text = line := by simpa using hline
    exact hlen

lemma LinesShort.readWhole (h : LinesShort file) (hfile : IsLsaFile (l :: lines) file) :
    ∃ rest, ReadWhole l file rest ∧ IsLsaFile lines rest := by
  rcases isLsaFile_cons l hfile with ⟨rest, rfl, hrest⟩ | ⟨rfl, rfl⟩
  · have hsplit := List.splitOn_append_cons_self_of_not_mem l.newline_notMem_text rest
    have hlen := h.ended l.text (by
      rw [hsplit, List.dropLast_cons_of_ne_nil (List.splitOn_ne_nil 10 rest)]
      exact List.mem_cons_self)
    exact ⟨rest, Or.inl ⟨rfl, hlen⟩, hrest⟩
  · have hlen := h.last l.text (by simp [List.splitOn_eq_singleton l.newline_notMem_text])
    exact ⟨[], Or.inr ⟨rfl, rfl, hlen⟩, Or.inl rfl⟩

/-- The neighbors of the lines that are installed after the numbers `best` fit. -/
def NeighborsFit (best : List UInt8 → Option Nat) (lines : List LsaLine) : Prop :=
  ∀ (i : Nat) (l : LsaLine), lines[i]? = some l →
    (records LsaLine.sender LsaLine.seq best lines)[i]? = some (l.sender, true) → ∀ n ∈ l.neighbors, n.length < maxIpLen

lemma neighborsFit_cons : NeighborsFit best (l :: lines) ↔
    ((∀ r ∈ best l.sender, r < l.seq) → ∀ n ∈ l.neighbors, n.length < maxIpLen) ∧
      NeighborsFit (if ∀ r ∈ best l.sender, r < l.seq then Function.update best l.sender (some l.seq) else best)
        lines := by
  have hrecords : records LsaLine.sender LsaLine.seq best (l :: lines) =
      (l.sender, decide (∀ r ∈ best l.sender, r < l.seq)) :: records LsaLine.sender LsaLine.seq
        (if ∀ r ∈ best l.sender, r < l.seq then Function.update best l.sender (some l.seq) else best) lines := by
    rw [records]
    by_cases hnew : ∀ r ∈ best l.sender, r < l.seq
    · simp only [if_pos hnew, decide_eq_true hnew]
    · simp only [if_neg hnew, decide_eq_false hnew]
  unfold NeighborsFit
  rw [hrecords]
  constructor
  · intro h
    refine ⟨fun hnew => h 0 l rfl ?_, fun i m hm hmark => h (i + 1) m hm hmark⟩
    rw [List.getElem?_cons_zero, decide_eq_true hnew]
  · rintro ⟨hfirst, hrest⟩ i m hm hmark
    cases i with
    | zero =>
      obtain rfl := Option.some.inj hm
      exact hfirst (of_decide_eq_true (Prod.mk.inj (Option.some.inj hmark)).2)
    | succ i => exact hrest i m hm hmark

/-- Before any number is known, a line is installed where its number is a record. -/
lemma neighborsFit_iff : NeighborsFit (fun _ => none) lines ↔
    ∀ i l, IsRecord LsaLine.sender LsaLine.seq lines i l → ∀ n ∈ l.neighbors, n.length < maxIpLen := by
  have hmark : ∀ (i : Nat) (l : LsaLine), lines[i]? = some l →
      ((records LsaLine.sender LsaLine.seq (fun _ => none) lines)[i]? = some (l.sender, true) ↔
        IsRecord LsaLine.sender LsaLine.seq lines i l) := by
    intro i l hl
    rw [records_getElem?_iff]
    constructor
    · rintro ⟨m, hm, -, -⟩
      rwa [Option.some.inj (hl.symm.trans hm.1)]
    · intro h
      exact ⟨l, h, rfl, by simp⟩
  constructor
  · intro h i l hl
    exact h i l hl.1 ((hmark i l hl.1).mpr hl)
  · intro h i l hl hrec
    exact h i l ((hmark i l hl).mp hrec)

/-- Whatever `malloc` returns, the texts of a file that is read to its end fit. -/
lemma parseLsaLines_fits (hshort : ShortNames t) (hknows : Knows t best) (hfile : IsLsaFile lines file)
    (hparse : parseLsaLines junk (fgetsLines [] file) t = some (0, t')) :
    (∀ l ∈ lines, l.sender.length < maxIpLen ∧ l.seq < 2 ^ 31) ∧ LinesShort file ∧ NeighborsFit best lines := by
  induction lines generalizing file t best with
  | nil =>
    rw [hfile.nil_eq]
    exact ⟨by simp, linesShort_nil, by simp [NeighborsFit]⟩
  | cons l lines ih =>
    obtain ⟨piece, rest, hpieces, hrest, hsscanf, hread, hsender, hseq⟩ := parseLsaLines_first l junk hfile hparse
    rw [hpieces, parseLsaLines_fields junk hsscanf] at hparse
    obtain ⟨t₁, hupdate, hparse⟩ := Option.bind_eq_some_iff.mp hparse
    obtain ⟨hneighbors, hshort₁⟩ := hshort.updateNode junk hknows hupdate
    obtain ⟨hlines, hends, hfit⟩ := ih hshort₁ (hknows.updateNode junk hupdate).2 hrest hparse
    rw [l.strtok_csv, l.count_csv, List.take_length] at hneighbors
    exact ⟨List.forall_mem_cons.mpr ⟨⟨hsender, hseq⟩, hlines⟩, hread.linesShort.mpr hends,
      neighborsFit_cons.mpr ⟨hneighbors, hfit⟩⟩

/-- In cleared memory a file whose texts fit is read to its end. -/
lemma parseLsaLines_of_fits (hjunk : ∀ a, junk.neighborNum a = 0) {s : LinkState.State (List UInt8)}
    (R : Refines t s) (hknows : Knows t best) (hfile : IsLsaFile lines file)
    (hlines : ∀ l ∈ lines, l.sender.length < maxIpLen ∧ l.seq < 2 ^ 31) (hends : LinesShort file)
    (hfit : NeighborsFit best lines) : ∃ t', parseLsaLines junk (fgetsLines [] file) t = some (0, t') := by
  induction lines generalizing file t s best with
  | nil =>
    rw [hfile.nil_eq]
    exact ⟨t, by simp [fgetsLines, parseLsaLines]⟩
  | cons l lines ih =>
    obtain ⟨⟨hsender, hseq⟩, hlines⟩ := List.forall_mem_cons.mp hlines
    obtain ⟨hneighbors, hfit⟩ := neighborsFit_cons.mp hfit
    obtain ⟨rest, hread, hrest⟩ := hends.readWhole hfile
    obtain ⟨tail, htail, hpieces⟩ := hread.pieces
    have hsscanf : sscanfLine (l.text ++ tail) = some (some (l.sender, (l.seq : Int), l.csv)) := by
      rw [l.sscanf_text htail, if_neg]
      have hcsv := hread.csv
      omega
    have htokens : ∀ t₁ now t₂, neighborNode junk t l.sender = some (t₁, now) → addClient junk t₁ l.sender = some t₂ →
        (l.seq : Int) > (t₂.heap now).seqNum → (∀ n ∈ strtok l.csv, n.length < maxIpLen) ∧
          (strtok l.csv).length = countCharNum l.csv 44 + 1 := by
      intro t₁ now t₂ hnode hclient hnew
      rw [l.strtok_csv, l.count_csv]
      rw [(hknows.sender junk hnode hclient).2.2.2] at hnew
      refine ⟨hneighbors fun r hr => ?_, rfl⟩
      rw [Option.mem_def.mp hr] at hnew
      exact Int.ofNat_lt.mp hnew
    obtain ⟨t₁, s₁, hupdate, R₁⟩ := updateNode_defined junk hjunk R hsender htokens
    obtain ⟨t', hparse⟩ := ih R₁ (hknows.updateNode junk hupdate).2 hrest hlines (hread.linesShort.mp hends) hfit
    refine ⟨t', ?_⟩
    rw [hpieces, parseLsaLines_fields junk hsscanf, hupdate]
    exact hparse

/-- A file of lines is read to its end exactly when its texts fit, where `neighbor_num` of new nodes is 0. -/
theorem parseLsaFile_fits_iff {serverFile : Option (List UInt8)} {ret : Int}
    (hserver : parseServerFile junk serverFile init = some (ret, t)) (hfile : IsLsaFile lines file) :
    ((∃ t', parseLsaFile junk (some file) t = some (0, t')) → FileFits lines file) ∧
      ((∀ a, junk.neighborNum a = 0) → FileFits lines file → ∃ t', parseLsaFile junk (some file) t = some (0, t')) := by
  have hknows := parseServerFile_knows junk hserver
  constructor
  · rintro ⟨t', hparse⟩
    obtain ⟨hlines, hends, hfit⟩ :=
      parseLsaLines_fits junk (parseServerFile_shortNames junk hserver) hknows hfile hparse
    exact ⟨fun l hl => (hlines l hl).1, fun l hl => (hlines l hl).2, hends, neighborsFit_iff.mp hfit⟩
  · intro hjunk hfits
    have R := parseServerFile_refines junk hjunk refines_init hserver
    exact parseLsaLines_of_fits junk hjunk R hknows hfile (fun l hl => ⟨hfits.sender l hl, hfits.seq l hl⟩)
      hfits.short (neighborsFit_iff.mpr hfits.neighbors)

end VideoCDN.Nameserver
