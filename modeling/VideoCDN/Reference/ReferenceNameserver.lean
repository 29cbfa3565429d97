import VideoCDN.Lib.Simulation
import VideoCDN.Nameserver.Serve
import VideoCDN.Reference.Agreement
import VideoCDN.Reference.Interop

/-!
# The reference nameserver

The script `dns/nameserver`. Each datagram is decoded and answered by the functions of `dns_common.py`,
whose globals are all that the rounds of the loop share. An exception ends the script. The log is left out.
-/

namespace VideoCDN.Reference

open CString Inet Dns HopGraph Nameserver

/-- The arguments of the script. -/
structure Script where
  roundRobin : Bool
  serversFile : List UInt8
  lsaFile : List UInt8

/-- What an answer to a client is chosen by. -/
def Script.choice (script : Script) (client : InAddr) : Choice :=
  ⟨script.roundRobin, script.serversFile, script.lsaFile, inetNtoa client⟩

/-- A round of the loop, and the message that is sent to the client. -/
def Script.round (order : DictOrder) (script : Script) (g : Globals) (q : Query) :
    Option (Globals × List UInt8) := do
  let (name, _, _, g) ← parseMessage (q.datagram.take 1024) true g
  let (message, _, g) ← genMessage order name false (script.choice q.client) g
  return (g, message)

/-- The rounds for a sequence of datagrams. -/
def Script.run (order : DictOrder) (script : Script) : Globals → List Query → Option (Globals × List (List UInt8)) :=
  Simulation.run (script.round order)

/-! ## Messages -/

lemma htons_htons (x : UInt16) : htons (htons x) = x := by
  have h := x.toNat_lt
  apply UInt16.toNat_inj.mp
  rw [toNat_htons, toNat_htons]
  omega

/-- What is sent for a name, an id and an address. -/
def scriptAnswer (name : HostName) (id : UInt16) (a : InAddr) : List UInt8 :=
  (responseHeader id).toBytes ++ questionBytes name.labels ++ pointerBytes a

/-- What the reference client reads out of a response with the given owner of the answer. -/
def readFlags (sent id : Nat) (owner : RrName) : Flags where
  sentTransId := sent
  recvTransId := id
  qr := 1
  opcode := 0
  aa := 1
  tc := 0
  rd := 0
  ra := 0
  z := 0
  rcode := 0
  numQuestions := 1
  numAnswers := 1
  numAuthority := 0
  numAdditional := 0
  qtype := 1
  qclass := 1
  rrName := owner
  rrQtype := 1
  rrQclass := 1
  rrTtl := 0
  rrDl := 4

lemma parseAnswer_pointer (a : InAddr) :
    parseAnswer (pointerBytes a) = some ⟨.pointer 49164, 1, 1, 0, 4, inetNtoa a⟩ := by
  simp [parseAnswer, pointerBytes, us, ub, InAddr.toList, inetNtoa, List.intercalate]

lemma parseMessage_scriptAnswer (name : HostName) (a : InAddr) (id : UInt16) (g : Globals) :
    parseMessage (scriptAnswer name id a) false g =
      some (name.text, inetNtoa a, some (readFlags g.transId id.toNat (.pointer 49164)), g) := by
  have hid := id.toNat_lt
  rw [scriptAnswer, responseHeader_bytes, bytesOf16_htons, questionBytes]
  simp [parseMessage, us, readName_text, parseAnswer_pointer, readFlags]
  omega

/-- A query for an address is decoded to its name, and its id is kept. -/
lemma parseMessage_query (name : HostName) (id : UInt16) (flags : UInt8) (g : Globals) :
    parseMessage ((bytesOf16 (htons id) ++ [flags, 0, 0, 1, 0, 0, 0, 0, 0, 0]) ++ wireName name.labels ++ [0, 1, 0, 1])
      true g = some (name.text, [], none, { g with transId := id.toNat }) := by
  have hid := id.toNat_lt
  rw [bytesOf16_htons]
  simp [parseMessage, us, readName_text]
  omega

/-! ## Rounds -/

/-- Once the name is decoded, the answer carries the chosen address. -/
lemma Script.round_eq {order : DictOrder} {script : Script} {g g' : Globals} {q : Query} {name : HostName}
    {id : UInt16} {a : InAddr}
    (hparse : parseMessage (q.datagram.take 1024) true g =
      some (name.text, [], none, { g with transId := id.toNat }))
    (hchoice : chooseAddr order (script.choice q.client)
      (genFlags false (setup false (script.choice q.client) { g with transId := id.toNat })) =
        some (inetNtoa a, g')) :
    script.round order g q = some (g', scriptAnswer name id a) := by
  have hmessage := genMessage_response order _ _ g' name id a rfl hchoice
  rw [Script.round, hparse]
  simp only [Option.bind_eq_bind, Option.bind_some, hmessage]
  rfl

/-- The servers are read for the first answer, and are the same for every other one. -/
lemma setup_eq {choice : Choice} {lines : List Str} (hfile : IsServerFile lines choice.serversFile) {g : Globals}
    (hservers : g.servers = [] ∨ g.servers = lines) : setup false choice g = { g with servers := lines } := by
  unfold setup
  rcases hservers with hempty | hread
  · rw [if_pos ⟨Bool.false_ne_true, by rw [hempty, List.length_nil]⟩, serverSetup_eq hfile]
  · have hne : g.servers.length ≠ 0 := by
      rw [hread]
      exact fun hlen => hfile.nonempty (List.eq_nil_of_length_eq_zero hlen)
    rw [if_neg fun h => hne h.2, ← hread]

/-- The globals before answer `k`, with the servers of the given lines. -/
structure Globals.Answering (lines : List Str) (k : Nat) (g : Globals) : Prop where
  servers : g.servers = [] ∨ g.servers = lines
  servCurr : g.servCurr = k % lines.length

lemma Globals.answering_start {lines : List Str} (transId : Nat) : (Globals.start transId).Answering lines 0 :=
  ⟨Or.inl rfl, (Nat.zero_mod _).symm⟩

/-- The best server on the announcements of one symmetric topology. -/
lemma getBestServer_isNearest (order : DictOrder) {link : Str → Str → Prop} (hsymm : ∀ u v, link u v → link v u)
    {lines : List LsaLine} (hlinks : AllLinks link lines) {file : Str} (hfile : IsLsaFile lines file)
    {servers : List Str} {serverFile : Str} (hserver : IsServerFile servers serverFile) {client : Str}
    (hreach : ∀ s ∈ servers, ∃ n, Walk (FileGraph lines) client n s) :
    ∃ b, getBestServer order client servers file = some (some b) ∧
      IsNearest (FileGraph lines) client (· ∈ servers) b := by
  have hgraph : FileGraph lines = Announced link (Sender lines) := by
    funext u v
    exact propext (fileGraph_iff hsymm hlinks u v)
  have hstart : StatusOf link (fun _ => False) [] := ⟨by simp, by simp, by simp⟩
  obtain ⟨status, hread, hstatus⟩ := readStatus_spec hfile hlinks hstart
  have hsenders : ∀ u, False ∨ Sender lines u ↔ Sender lines u := fun u => by simp
  rw [hgraph] at hreach ⊢
  exact getBestServer_spec order hread (hstatus.congr hsenders) hsymm client hserver.nonempty
    (fun s hs => (hserver.name s hs).1) hreach

section Choice

variable {order : DictOrder} {choice : Choice} {lines : List Str} {k : Nat} {g : Globals}

/-- With `-r` the address is that on the next line. -/
lemma chooseAddr_inTurn (hmode : choice.roundRobin = true) (hfile : IsServerFile lines choice.serversFile)
    (hg : g.Answering lines k) {line : Str} (hline : lines[k % lines.length]? = some line) (transId : Nat) :
    ∃ g', chooseAddr order choice (genFlags false (setup false choice { g with transId := transId })) =
      some (line, g') ∧ g'.Answering lines (k + 1) := by
  have hsetup := setup_eq hfile (g := { g with transId := transId }) hg.servers
  have hcurr : lines[g.servCurr]? = some line := by rw [hg.servCurr, hline]
  refine ⟨{ genFlags false { g with transId := transId, servers := lines } with
    servCurr := (g.servCurr + 1) % lines.length }, ?_, Or.inr rfl, ?_⟩
  · rw [hsetup, chooseAddr, if_pos hmode]
    simp only [genFlags, Bool.false_eq_true, if_false, hcurr, Option.bind_eq_bind, Option.bind_some]
    rfl
  · change (g.servCurr + 1) % lines.length = _
    rw [hg.servCurr, Nat.mod_add_mod]

/-- Without `-r` it is the best server, whatever was answered before. -/
lemma chooseAddr_best (hmode : choice.roundRobin = false) (hfile : IsServerFile lines choice.serversFile)
    (hservers : g.servers = [] ∨ g.servers = lines) {best : Str}
    (hbest : getBestServer order choice.addr lines choice.lsaFile = some (some best)) (transId : Nat) :
    ∃ g', chooseAddr order choice (genFlags false (setup false choice { g with transId := transId })) =
      some (best, g') ∧ g'.servers = lines := by
  have hsetup := setup_eq hfile (g := { g with transId := transId }) hservers
  refine ⟨genFlags false { g with transId := transId, servers := lines }, ?_, rfl⟩
  have hrr : ¬choice.roundRobin = true := by rw [hmode]; exact Bool.false_ne_true
  rw [hsetup, chooseAddr, if_neg hrr]
  simp only [genFlags, Bool.false_eq_true, if_false, hbest, Option.bind_eq_bind, Option.bind_some]
  rfl

end Choice

end VideoCDN.Reference
