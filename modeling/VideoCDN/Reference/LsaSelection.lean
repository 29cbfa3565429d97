import VideoCDN.Nameserver.Installed
import VideoCDN.Nameserver.LinkSemantics
import VideoCDN.Nameserver.LsaFits
import VideoCDN.Reference.Agreement

/-!
# The announcements that are kept

The nameserver compares sequence numbers, the reference compares their texts. Both keep the first line of the
greatest number of a sender where its text is the greatest too.
-/

namespace VideoCDN.Reference

open CString Nameserver Records

/-- The condition under which the loop over the lines keeps a line. -/
def isNewer (status : List (Str × Str × List Str)) (sender seq : Str) : Bool :=
  match dictGet status sender with
  | none => true
  | some old => old.1 < seq

/-- The senders of the lines that `getBestServer` goes through, marked where a line is kept. -/
def keepLog : List Str → List (Str × Str × List Str) → Option (List (Str × Bool))
  | [], _ => some []
  | lsa :: lsas, status =>
    if lsa = [] then keepLog lsas status
    else match lsa.splitOn 32 with
      | sender :: seq :: csv :: _ =>
        let newer := isNewer status sender seq
        (keepLog lsas (if newer then dictSet status sender (seq, csv.splitOn 44) else status)).map
          ((sender, newer) :: ·)
      | _ => none

/-- The text of the number of a line. -/
def seqText (l : LsaLine) : Str := decimal l.seq

lemma dictGet_dictSet {V : Type} {d : List (Str × V)} (hd : (d.map Prod.fst).Nodup) (k : Str) (v : V) (u : Str) :
    dictGet (dictSet d k v) u = if u = k then some v else dictGet d u := by
  have hmem := fun w => (dictGet_eq_some_iff (dictSet_keys d k v hd) u w).trans mem_dictSet
  apply Option.ext
  intro w
  rw [hmem]
  by_cases hu : u = k
  · simp [hu, eq_comm]
  · simp [hu, dictGet_eq_some_iff hd]

/-- The texts kept for the senders. -/
structure Keeps (status : List (Str × Str × List Str)) (best : Str → Option Str) : Prop where
  keys : (status.map Prod.fst).Nodup
  seq : ∀ u, (dictGet status u).map Prod.fst = best u

lemma Keeps.isNewer {best : Str → Option Str} {status : List (Str × Str × List Str)} (h : Keeps status best)
    (sender seq : Str) : isNewer status sender seq = decide (∀ r ∈ best sender, r < seq) := by
  rw [← h.seq sender]
  unfold Reference.isNewer
  cases dictGet status sender with
  | none => simp
  | some old => simp

lemma Keeps.dictSet {best : Str → Option Str} {status : List (Str × Str × List Str)} (h : Keeps status best)
    (sender seq : Str) (neighbors : List Str) :
    Keeps (dictSet status sender (seq, neighbors)) (Function.update best sender (some seq)) := by
  refine ⟨dictSet_keys status sender _ h.keys, ?_⟩
  intro u
  rw [dictGet_dictSet h.keys]
  by_cases hu : u = sender
  · simp [hu]
  · simp [hu, h.seq]

lemma keepLog_line (l : LsaLine) (rest : List Str) (status : List (Str × Str × List Str)) :
    keepLog (l.text :: rest) status =
      (keepLog rest (if isNewer status l.sender (seqText l) then
          dictSet status l.sender (seqText l, l.neighbors) else status)).map
        ((l.sender, isNewer status l.sender (seqText l)) :: ·) := by
  have hne : l.text ≠ [] := by simp [LsaLine.text]
  rw [keepLog, if_neg hne, splitOn_text]
  simp only [splitOn_csv, seqText]
  rfl

lemma keepLog_file {l : LsaLine} {file rest : Str} {status : List (Str × Str × List Str)}
    (h : file.splitOn 10 = l.text :: rest.splitOn 10 ∨ file.splitOn 10 = [l.text] ∧ rest = []) :
    keepLog (file.splitOn 10) status = keepLog (l.text :: rest.splitOn 10) status := by
  rcases h with hpieces | ⟨hpieces, rfl⟩
  · rw [hpieces]
  · rw [hpieces]
    simp [keepLog]

/-- In a file of lines, the kept lines are the records of the texts. -/
theorem keepLog_eq {lines : List LsaLine} {file : List UInt8} (hfile : IsLsaFile lines file)
    {best : Str → Option Str} {status : List (Str × Str × List Str)} (h : Keeps status best) :
    keepLog (file.splitOn 10) status = some (records LsaLine.sender seqText best lines) := by
  induction lines generalizing file status best with
  | nil =>
    rw [hfile.nil_eq]
    simp [keepLog, records]
  | cons l lines ih =>
    obtain ⟨rest, hrest, hpieces⟩ := splitOn_file hfile
    rw [keepLog_file hpieces, keepLog_line, h.isNewer, records]
    by_cases hnew : ∀ r ∈ best l.sender, r < seqText l
    · simp only [decide_eq_true hnew, if_true, if_pos hnew]
      rw [ih hrest (h.dictSet l.sender (seqText l) l.neighbors), Option.map_some]
    · simp only [decide_eq_false hnew, Bool.false_eq_true, if_false, if_neg hnew]
      rw [ih hrest h, Option.map_some]

/-- The loop of `getBestServer` goes through the lines with the dictionary of the log. -/
lemma readStatus_line (l : LsaLine) (rest : List Str) (status : List (Str × Str × List Str)) :
    readStatus (l.text :: rest) status =
      readStatus rest (if isNewer status l.sender (seqText l) then
        dictSet status l.sender (seqText l, l.neighbors) else status) := by
  have hne : l.text ≠ [] := by simp [LsaLine.text]
  rw [readStatus, if_neg hne, splitOn_text]
  simp only [splitOn_csv, seqText]
  rfl

/-- What the loop leaves in the dictionary for a sender is its last marked line; nothing changes without one. -/
lemma readStatus_log {lines : List LsaLine} {file : Str} (hfile : IsLsaFile lines file)
    {status : List (Str × Str × List Str)} (hkeys : (status.map Prod.fst).Nodup) :
    ∃ status' log, readStatus (file.splitOn 10) status = some status' ∧
      keepLog (file.splitOn 10) status = some log ∧
      (∀ u i l, IsLastMark log u i → lines[i]? = some l → dictGet status' u = some (seqText l, l.neighbors)) ∧
      ∀ u, (∀ i : Nat, log[i]? ≠ some (u, true)) → dictGet status' u = dictGet status u := by
  induction lines generalizing file status with
  | nil =>
    rw [hfile.nil_eq]
    exact ⟨status, [], by simp [readStatus], by simp [keepLog], fun u i l h => by simp [IsLastMark] at h,
      fun _ _ => rfl⟩
  | cons l lines ih =>
    obtain ⟨rest, hrest, hpieces⟩ := splitOn_file hfile
    rw [readStatus_file hpieces, keepLog_file hpieces, readStatus_line, keepLog_line]
    obtain ⟨newer, hnewer⟩ : ∃ newer, newer = isNewer status l.sender (seqText l) := ⟨_, rfl⟩
    rw [← hnewer]
    obtain ⟨status₁, hstatus₁⟩ : ∃ status₁, status₁ =
      if newer then dictSet status l.sender (seqText l, l.neighbors) else status := ⟨_, rfl⟩
    rw [← hstatus₁]
    have hkeys₁ : (status₁.map Prod.fst).Nodup := by
      rw [hstatus₁]
      split
      · exact dictSet_keys status l.sender _ hkeys
      · exact hkeys
    obtain ⟨status', log, hread, hlog, hmarked, hunmarked⟩ := ih hrest hkeys₁
    refine ⟨status', (l.sender, newer) :: log, hread, by rw [hlog, Option.map_some], ?_, ?_⟩
    · rintro u i m ⟨hmark, hlast⟩ hm
      cases i with
      | zero =>
        obtain ⟨rfl, rfl⟩ : l.sender = u ∧ newer = true := by simpa using hmark
        obtain rfl := Option.some.inj hm
        have hno : ∀ j, log[j]? ≠ some (l.sender, true) := fun j hj => by
          have hle := hlast (j + 1) hj
          omega
        rw [hunmarked _ hno, hstatus₁, if_pos rfl, dictGet_dictSet hkeys, if_pos rfl]
      | succ i =>
        exact hmarked u i m ⟨hmark, fun j hj => Nat.le_of_succ_le_succ (hlast (j + 1) hj)⟩ hm
    · intro u hno
      rw [hunmarked u fun i => hno (i + 1), hstatus₁]
      split
      · rename_i htrue
        have hne : u ≠ l.sender := by
          rintro rfl
          exact hno 0 (by simp [htrue])
        rw [dictGet_dictSet hkeys, if_neg hne]
      · rfl

/-- For every sender `getBestServer` goes on with the first line of the greatest text. -/
theorem readStatus_greatest {lines : List LsaLine} {file : Str} (hfile : IsLsaFile lines file) :
    ∃ status, readStatus (file.splitOn 10) [] = some status ∧ ∀ u i l,
      IsFirstGreatest LsaLine.sender seqText lines u i l → dictGet status u = some (seqText l, l.neighbors) := by
  have hempty : (([] : List (Str × Str × List Str)).map Prod.fst).Nodup := List.nodup_nil
  obtain ⟨status, log, hread, hlog, hmarked, -⟩ := readStatus_log hfile hempty
  refine ⟨status, hread, ?_⟩
  intro u i l hl
  have hnone : Keeps [] (fun _ => none) := ⟨List.nodup_nil, fun _ => rfl⟩
  have hkeep := keepLog_eq hfile hnone
  obtain rfl := Option.some.inj (hlog.symm.trans hkeep)
  exact hmarked u i l ((isLastMark_records_iff _ _ _).mpr ⟨l, hl⟩) hl.1

/-! ## Agreement -/

/-- Both read the file to its end, and for every sender the line `parse_LSA_file` last installs and the line
`getBestServer` keeps are the first one with the greatest number. -/
def SelectsSame (junk : Junk) (t : Topo) (lines : List LsaLine) (file : List UInt8) : Prop :=
  ∃ t' installed kept, parseLsaFile junk (some file) t = some (0, t') ∧
    installLog junk (fgetsLines [] file) t = some installed ∧ keepLog (file.splitOn 10) [] = some kept ∧
    ∀ l ∈ lines, ∃ i m, IsFirstGreatest LsaLine.sender LsaLine.seq lines l.sender i m ∧
      IsLastMark installed l.sender i ∧ IsLastMark kept l.sender i

lemma seqText_injective {l m : LsaLine} (h : seqText l = seqText m) : l.seq = m.seq := by
  rw [← digitsVal_decimal l.seq, ← digitsVal_decimal m.seq]
  exact congrArg digitsVal h

/-- The first line of the greatest number is the first of the greatest text when no text is above its own. -/
lemma exists_greatest_text_iff {lines : List LsaLine} {u : Str} {i : Nat} {l : LsaLine}
    (h : IsFirstGreatest LsaLine.sender LsaLine.seq lines u i l) :
    (∃ m, IsFirstGreatest LsaLine.sender seqText lines u i m) ↔
      ∀ k ∈ lines, k.sender = u → seqText k ≤ seqText l := by
  constructor
  · rintro ⟨m, hm⟩ k hk hkey
    obtain rfl : m = l := Option.some.inj (hm.1.symm.trans h.1)
    obtain ⟨j, hj⟩ := List.mem_iff_getElem?.mp hk
    exact (hm.2.2 j k hj hkey).1
  · intro hall
    refine ⟨l, h.1, h.2.1, ?_⟩
    intro j k hj hkey
    have hle := hall k (List.mem_of_getElem? hj) hkey
    refine ⟨hle, fun hji => Std.lt_of_le_of_ne hle fun heq => ?_⟩
    have hlt := (h.2.2 j k hj hkey).2 hji
    rw [seqText_injective heq] at hlt
    exact absurd hlt (Nat.lt_irrefl _)

/-- For each sender the text of its greatest number is its greatest text. -/
def GreatestTexts (lines : List LsaLine) : Prop :=
  ∀ l ∈ lines, (∀ m ∈ lines, m.sender = l.sender → m.seq ≤ l.seq) →
    ∀ m ∈ lines, m.sender = l.sender → decimal m.seq ≤ decimal l.seq

instance (lines : List LsaLine) : Decidable (GreatestTexts lines) :=
  inferInstanceAs (Decidable (∀ l ∈ lines, (∀ m ∈ lines, m.sender = l.sender → m.seq ≤ l.seq) →
    ∀ m ∈ lines, m.sender = l.sender → decimal m.seq ≤ decimal l.seq))

/-- In a file that is read to its end, the texts decide. -/
lemma selectsSame_iff_texts {junk : Junk} {t t' : Topo} {lines : List LsaLine} {file : List UInt8}
    (hfile : IsLsaFile lines file) (hknows : Knows t fun _ => none)
    (hparse : parseLsaFile junk (some file) t = some (0, t')) :
    SelectsSame junk t lines file ↔ GreatestTexts lines := by
  have hinstall := installLog_eq junk hfile hknows hparse
  have hnone : Keeps [] (fun _ => none) := ⟨List.nodup_nil, fun _ => rfl⟩
  have hkeep := keepLog_eq hfile hnone
  constructor
  · rintro ⟨-, installed, kept, -, hinstalled, hkept, hsame⟩ l hl hgreatest m hm hsender
    rw [hkeep] at hkept
    obtain rfl := Option.some.inj hkept
    obtain ⟨i, k, hk, -, hlast⟩ := hsame l hl
    have htext := (isLastMark_records_iff lines l.sender i).mp hlast
    have hle := hgreatest k (List.mem_of_getElem? hk.1) hk.2.1
    obtain ⟨j, hj⟩ := List.mem_iff_getElem?.mp hl
    have hge := (hk.2.2 j l hj rfl).1
    have hseq : k.seq = l.seq := Nat.le_antisymm hle hge
    have hmk := (exists_greatest_text_iff hk).mp htext m hm hsender
    rwa [seqText, seqText, hseq] at hmk
  · intro htext
    refine ⟨t', _, _, hparse, hinstall, hkeep, ?_⟩
    intro l hl
    obtain ⟨i, k, hk⟩ : ∃ i k, IsFirstGreatest LsaLine.sender LsaLine.seq lines l.sender i k :=
      exists_isFirstGreatest _ _ lines hl
    refine ⟨i, k, hk, (isLastMark_records_iff _ _ _).mpr ⟨k, hk⟩, (isLastMark_records_iff _ _ _).mpr ?_⟩
    apply (exists_greatest_text_iff hk).mpr
    intro m hm hsender
    apply htext k (List.mem_of_getElem? hk.1) _ m hm (hsender.trans hk.2.1.symm)
    intro n hn hnk
    obtain ⟨j, hj⟩ := List.mem_iff_getElem?.mp hn
    exact (hk.2.2 j n hj (hnk.trans hk.2.1)).1

/-- The lines of a sender are the same when the texts of the file fit where `parse_LSA_file` copies them and the text
of each sender's greatest number is its greatest text, and only then; `neighbor_num` of a new node has to be 0 for
the first. -/
theorem selects_same_iff (junk : Junk) (serverFile : Option (List UInt8)) (ret : Int) (t₀ : Topo)
    (hserver : parseServerFile junk serverFile init = some (ret, t₀)) (lines : List LsaLine) (file : List UInt8)
    (hfile : IsLsaFile lines file) :
    (SelectsSame junk t₀ lines file → FileFits lines file ∧ GreatestTexts lines) ∧
      ((∀ a, junk.neighborNum a = 0) → FileFits lines file ∧ GreatestTexts lines →
        SelectsSame junk t₀ lines file) := by
  have hknows := parseServerFile_knows junk hserver
  obtain ⟨hfits_of, hparse_of⟩ := parseLsaFile_fits_iff junk hserver hfile
  constructor
  · intro hsame
    have ⟨t, _, _, hparse, _⟩ := hsame
    exact ⟨hfits_of ⟨t, hparse⟩, (selectsSame_iff_texts hfile hknows hparse).mp hsame⟩
  · rintro hjunk ⟨hfits, htexts⟩
    obtain ⟨t, hparse⟩ := hparse_of hjunk hfits
    exact (selectsSame_iff_texts hfile hknows hparse).mpr htexts

section Example

def lineNine : LsaLine := { lineA with seq := 9 }

def lineTen : LsaLine := { lineB with sender := lineA.sender, seq := 10, sender_field := lineA.sender_field }

def lineEight : LsaLine := { lineNine with seq := 8 }

lemma fileFits_twoLines {l m : LsaLine} (hsender : ∀ k ∈ [l, m], k.sender.length < maxIpLen)
    (hneighbors : ∀ k ∈ [l, m], ∀ n ∈ k.neighbors, n.length < maxIpLen) (hseq : ∀ k ∈ [l, m], k.seq < 2 ^ 31)
    (hended : ∀ line ∈ ((twoLines l m).splitOn 10).dropLast, line.length + 1 < maxLineLen)
    (hlast : ∀ line ∈ ((twoLines l m).splitOn 10).getLast?, line.length < maxLineLen) :
    FileFits [l, m] (twoLines l m) :=
  ⟨hsender, hseq, ⟨hended, hlast⟩, fun _ k hk n hn => hneighbors k (List.mem_of_getElem? hk.1) n hn⟩

/-- An older line behind the newest. -/
theorem selects_same_iff_stale : SelectsSame zeroJunk init [lineNine, lineEight] (twoLines lineNine lineEight) := by
  apply (selects_same_iff zeroJunk none (-1) init rfl [lineNine, lineEight] _ (isLsaFile_twoLines _ _)).2
  · exact fun _ => rfl
  · refine ⟨fileFits_twoLines ?_ ?_ ?_ ?_ ?_, ?_⟩ <;> decide +kernel

/-- The number 10 comes after 9, and its text before. -/
theorem ten_after_nine_differs :
    parseServerFile zeroJunk none init = some (-1, init) ∧
      IsLsaFile [lineNine, lineTen] (twoLines lineNine lineTen) ∧
      FileFits [lineNine, lineTen] (twoLines lineNine lineTen) ∧
      ¬SelectsSame zeroJunk init [lineNine, lineTen] (twoLines lineNine lineTen) := by
  refine ⟨rfl, isLsaFile_twoLines _ _, fileFits_twoLines ?_ ?_ ?_ ?_ ?_, ?_⟩
  iterate 5 decide +kernel
  rintro ⟨-, installed, kept, -, hinstalled, hkept, hsame⟩
  obtain ⟨i, m, -, hlast, hlast'⟩ := hsame lineNine (by simp)
  have hinstalled' : installLog zeroJunk (fgetsLines [] (twoLines lineNine lineTen)) init =
      some [(bytes "1.0.0.1", true), (bytes "1.0.0.1", true)] := by decide +kernel
  have hkept' : keepLog ((twoLines lineNine lineTen).splitOn 10) [] =
      some [(bytes "1.0.0.1", true), (bytes "1.0.0.1", false)] := by decide +kernel
  rw [hinstalled'] at hinstalled
  rw [hkept'] at hkept
  obtain rfl := Option.some.inj hinstalled
  obtain rfl := Option.some.inj hkept
  have hone : 1 ≤ i := hlast.2 1 rfl
  have hmark := hlast'.1
  rcases i with _ | _ | i
  · omega
  · exact absurd hmark (by decide)
  · cases hmark

end Example

end VideoCDN.Reference
