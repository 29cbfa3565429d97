import VideoCDN.Nameserver.Startup

/-!
# The servers file

`parse_server_file` drops the last character of every line, so that a last line without newline
loses a character of its address. A line with its newline needs one more byte than it has
characters, beside the one for the NUL.
-/

namespace VideoCDN.Nameserver

open CString

/-! ## First occurrences -/

section Distinct

variable {α : Type} [BEq α] [LawfulBEq α] {l : List α} {x y : α}

lemma eraseDups_concat_of_mem (hx : x ∈ l) : (l ++ [x]).eraseDups = l.eraseDups := by
  rw [List.eraseDups_append]
  simp [List.removeAll, hx]

lemma eraseDups_concat_of_not_mem (hx : x ∉ l) : (l ++ [x]).eraseDups = l.eraseDups ++ [x] := by
  rw [List.eraseDups_append]
  simp [List.removeAll, hx, List.eraseDups_cons]

lemma reverse_eraseDups_concat (l : List α) (x : α) :
    (l ++ [x]).eraseDups.reverse = l.eraseDups.reverse.insert x := by
  by_cases hx : x ∈ l
  · rw [eraseDups_concat_of_mem hx, List.insert_of_mem (by simpa using hx)]
  · rw [eraseDups_concat_of_not_mem hx, List.insert_of_not_mem (by simpa using hx), List.reverse_append]
    rfl

lemma nodup_eraseDups (l : List α) : l.eraseDups.Nodup := by
  induction l using List.reverseRecOn with
  | nil => exact List.nodup_nil
  | append_singleton l x ih =>
    by_cases hx : x ∈ l
    · rwa [eraseDups_concat_of_mem hx]
    · rw [eraseDups_concat_of_not_mem hx]
      apply List.Nodup.append ih (List.nodup_singleton x)
      simpa using hx

/-- Different last elements are not noticed exactly when both occur before. -/
lemma eraseDups_concat_eq_iff (hne : x ≠ y) : (l ++ [x]).eraseDups = (l ++ [y]).eraseDups ↔ x ∈ l ∧ y ∈ l := by
  by_cases hx : x ∈ l
  · by_cases hy : y ∈ l
    · simp [eraseDups_concat_of_mem, hx, hy]
    · simp [eraseDups_concat_of_mem hx, eraseDups_concat_of_not_mem hy, hy]
  · by_cases hy : y ∈ l
    · simp [eraseDups_concat_of_mem hy, eraseDups_concat_of_not_mem hx, hx]
    · simp [eraseDups_concat_of_not_mem hx, eraseDups_concat_of_not_mem hy, hx, hne]

end Distinct

/-! ## The file and its lines -/

/-- A line of a text, without its newline. -/
def IsLine (l : List UInt8) : Prop := ∀ b ∈ l, b ≠ 0 ∧ b ≠ 10

instance (l : List UInt8) : Decidable (IsLine l) := List.decidableBAll (fun b : UInt8 => b ≠ 0 ∧ b ≠ 10) l

/-- A text of lines that are shorter than `MAX_IP_LEN`; `last` follows the last newline. -/
structure ServersText where
  lines : List (List UInt8)
  last : List UInt8
  text : ∀ l ∈ last :: lines, IsLine l
  short : ∀ l ∈ last :: lines, l.length < maxIpLen

namespace ServersText

variable (file : ServersText)

def bytes : List UInt8 := (file.lines.flatMap fun l => l ++ [10]) ++ file.last

/-- The lines, the last one whether or not it ends with a newline. -/
def addresses : List (List UInt8) := file.lines ++ if file.last = [] then [] else [file.last]

/-- The addresses that are read. -/
def names : List (List UInt8) := file.lines ++ if file.last = [] then [] else [file.last.dropLast]

/-- Every line fits the buffer together with its newline. -/
def Fits : Prop := ∀ l ∈ file.lines, l.length + 1 < maxIpLen

lemma newline_not_mem {l : List UInt8} (hl : l ∈ file.last :: file.lines) : (10 : UInt8) ∉ l :=
  fun h => (file.text l hl 10 h).2 rfl

lemma length_lt {l : List UInt8} (hl : l ∈ file.last :: file.lines) : l.length + 1 < maxLineLen := by
  have hshort := file.short l hl
  simp only [maxIpLen, maxLineLen] at hshort ⊢
  omega

lemma fgetsLines_bytes : fgetsLines [] file.bytes =
    (file.lines.map fun l => l ++ [10]) ++ if file.last = [] then [] else [file.last] := by
  have hlines := fgetsLines_lines (fun l hl => file.newline_not_mem (List.mem_cons_of_mem _ hl))
    (fun l hl => file.length_lt (List.mem_cons_of_mem _ hl)) file.last
  rw [bytes, hlines]
  congr 1
  by_cases hlast : file.last = []
  · rw [hlast]
    rfl
  · have hlen := file.length_lt List.mem_cons_self
    have hfgets := fgetsLines_last (file.newline_not_mem List.mem_cons_self) [] (by simpa using hlast)
      (by rw [List.length_nil]; omega)
    rw [hfgets, if_neg hlast, List.nil_append]

lemma dropLast_ne (hlast : file.last ≠ []) : file.last.dropLast ≠ file.last := by
  intro h
  have hlen := congrArg List.length h
  have hpos := List.length_pos_iff.mpr hlast
  rw [List.length_dropLast] at hlen
  omega

/-- What `fgets` reads, as the names and the characters they lose. -/
lemma pieces (hfits : file.Fits) : ∃ pieces : List (List UInt8 × UInt8),
    fgetsLines [] file.bytes = (pieces.map fun p => p.1 ++ [p.2]) ∧ pieces.map Prod.fst = file.names ∧
      ∀ p ∈ pieces, (∀ b ∈ p.1, b ≠ 0) ∧ p.2 ≠ 0 ∧ p.1.length + 1 < maxIpLen := by
  have hlines : ∀ p ∈ file.lines.map (·, (10 : UInt8)),
      (∀ b ∈ p.1, b ≠ 0) ∧ p.2 ≠ 0 ∧ p.1.length + 1 < maxIpLen := by
    intro p hp
    obtain ⟨l, hl, rfl⟩ := List.mem_map.mp hp
    have hnewline : (10 : UInt8) ≠ 0 := by decide
    exact ⟨fun b hb => (file.text l (List.mem_cons_of_mem _ hl) b hb).1, hnewline, hfits l hl⟩
  by_cases hlast : file.last = []
  · refine ⟨file.lines.map (·, 10), ?_, ?_, hlines⟩
    · rw [file.fgetsLines_bytes, if_pos hlast, List.append_nil, List.map_map]
      rfl
    · rw [names, if_pos hlast, List.append_nil, List.map_map]
      exact List.map_id _
  · have hsplit := List.dropLast_append_getLast hlast
    refine ⟨file.lines.map (·, 10) ++ [(file.last.dropLast, file.last.getLast hlast)], ?_, ?_, fun p hp => ?_⟩
    · rw [file.fgetsLines_bytes, if_neg hlast, List.map_append, List.map_map, List.map_singleton]
      dsimp only
      rw [hsplit]
      rfl
    · rw [names, if_neg hlast, List.map_append, List.map_map]
      exact congrArg (· ++ [file.last.dropLast]) (List.map_id _)
    · rcases List.mem_append.mp hp with hp | hp
      · exact hlines p hp
      · obtain rfl := List.mem_singleton.mp hp
        have hlen := file.short _ List.mem_cons_self
        have htext := file.text _ List.mem_cons_self
        refine ⟨fun b hb => (htext b (List.dropLast_subset _ hb)).1, (htext _ (List.getLast_mem hlast)).1, ?_⟩
        have hpos := List.length_pos_iff.mpr hlast
        rw [List.length_dropLast]
        omega

end ServersText

variable (junk : Junk)

/-- The names of the pieces are added in their order. -/
lemma parseServerLines_names {t : Topo} {read : List (List UInt8)}
    (I : ServersRead t read.eraseDups.reverse read.eraseDups.reverse) {pieces : List (List UInt8 × UInt8)}
    (hpieces : ∀ p ∈ pieces, (∀ b ∈ p.1, b ≠ 0) ∧ p.2 ≠ 0 ∧ p.1.length + 1 < maxIpLen) :
    ∃ t', parseServerLines junk (pieces.map fun p => p.1 ++ [p.2]) t = some t' ∧
      ServersRead t' (read ++ pieces.map Prod.fst).eraseDups.reverse (read ++ pieces.map Prod.fst).eraseDups.reverse := by
  induction pieces generalizing t read with
  | nil => exact ⟨t, rfl, by simpa using I⟩
  | cons p pieces ih =>
    obtain ⟨hname, hc, hfits⟩ := hpieces p List.mem_cons_self
    obtain ⟨t₁, hcons, I₁⟩ := parseServerLines_cons junk I hname hc hfits (pieces.map fun p => p.1 ++ [p.2])
    rw [← reverse_eraseDups_concat] at I₁
    obtain ⟨t', hrun, I'⟩ := ih I₁ fun q hq => hpieces q (List.mem_cons_of_mem p hq)
    refine ⟨t', ?_, ?_⟩
    · rw [List.map_cons, hcons, hrun]
    · rwa [List.map_cons, ← List.singleton_append, ← List.append_assoc]

/-- A piece that is too long leaves the buffer, and an empty one has no last character, if the run got to it. -/
lemma parseServerLines_unreadable {pieces : List (List UInt8)} {piece : List UInt8} (hpiece : piece ∈ pieces)
    (hbad : maxIpLen ≤ piece.length ∨ cstr piece = []) (t : Topo) : parseServerLines junk pieces t = none := by
  induction pieces generalizing t with
  | nil => exact absurd hpiece List.not_mem_nil
  | cons line pieces ih =>
    rw [parseServerLines]
    by_cases hline : maxIpLen ≤ line.length
    · rw [if_pos hline]
      rfl
    · rw [if_neg hline]
      by_cases hcstr : cstr line = []
      · rw [if_pos hcstr]
        rfl
      · have hrest : piece ∈ pieces := by
          rcases List.mem_cons.mp hpiece with rfl | hrest
          · exact absurd hbad (not_or.mpr ⟨hline, hcstr⟩)
          · exact hrest
        rw [if_neg hcstr]
        apply Option.bind_eq_none_iff.mpr
        intro r _
        apply Option.bind_eq_none_iff.mpr
        intro r' _
        exact ih hrest _

/-- A file whose lines fit is read to its end. -/
theorem parseServerFile_names (file : ServersText) (hfits : file.Fits) :
    ∃ t, parseServerFile junk (some file.bytes) init = some (0, t) ∧
      ServersRead t file.names.eraseDups.reverse file.names.eraseDups := by
  obtain ⟨pieces, hpieces, hnames, hok⟩ := file.pieces hfits
  have hstart : ServersRead init ([] : List (List UInt8)).eraseDups.reverse ([] : List (List UInt8)).eraseDups.reverse :=
    serversRead_init
  obtain ⟨t, hrun, I⟩ := parseServerLines_names junk hstart hok
  rw [List.nil_append, hnames] at I
  refine ⟨{ t with servers := { t.servers with header := t.servers.header.reverse } }, ?_, ?_⟩
  · rw [parseServerFile, hpieces, hrun]
    rfl
  · have hreversed := I.reverse
    rwa [List.reverse_reverse] at hreversed

/-! ## The law -/

/-- The servers are the distinct addresses of the file in the order of their first occurrence, and are
all listed as nodes. -/
def ServersLaw (file : ServersText) : Prop :=
  ∃ t, parseServerFile junk (some file.bytes) init = some (0, t) ∧
    ips t t.servers.header = file.addresses.eraseDups ∧ t.servers.num = file.addresses.eraseDups.length ∧
    ∀ s ∈ file.addresses, s ∈ ips t t.nodes.header

/-- The law holds exactly for the files whose lines fit the buffer with their newlines, and whose last
line has its newline, or occurs before together with what is left of it without its last character. -/
theorem serversLaw_iff (file : ServersText) :
    ServersLaw junk file ↔ file.Fits ∧
      (file.last = [] ∨ file.last ∈ file.lines ∧ file.last.dropLast ∈ file.lines) := by
  constructor
  · rintro ⟨t, hparse, hips, -⟩
    have hfits : file.Fits := by
      intro l hl
      by_contra hlong
      have hpiece : l ++ [10] ∈ fgetsLines [] file.bytes := by
        rw [file.fgetsLines_bytes]
        exact List.mem_append_left _ (List.mem_map.mpr ⟨l, hl, rfl⟩)
      have hnone := parseServerLines_unreadable junk hpiece (Or.inl (by simpa using hlong)) init
      rw [parseServerFile, hnone] at hparse
      cases hparse
    obtain ⟨t', hparse', I⟩ := parseServerFile_names junk file hfits
    obtain ⟨-, rfl⟩ := Prod.mk.inj (Option.some.inj (hparse.symm.trans hparse'))
    refine ⟨hfits, ?_⟩
    by_cases hlast : file.last = []
    · exact Or.inl hlast
    · rw [I.servers, ServersText.names, ServersText.addresses, if_neg hlast, if_neg hlast,
        eraseDups_concat_eq_iff (file.dropLast_ne hlast)] at hips
      exact Or.inr hips.symm
  · rintro ⟨hfits, hlast⟩
    obtain ⟨t, hparse, I⟩ := parseServerFile_names junk file hfits
    have hnames : file.names.eraseDups = file.addresses.eraseDups := by
      rw [ServersText.names, ServersText.addresses]
      by_cases hnil : file.last = []
      · rw [if_pos hnil, if_pos hnil]
      · rw [if_neg hnil, if_neg hnil, eraseDups_concat_eq_iff (file.dropLast_ne hnil)]
        exact (hlast.resolve_left hnil).symm
    rw [hnames] at I
    refine ⟨t, hparse, I.servers, ?_, fun s hs => ?_⟩
    · rw [I.serversNum, ← I.servers, ips, List.length_map]
    · rw [I.nodes]
      simpa using hs

section Example

/-- Two addresses, the second one without a newline. -/
def unterminated : ServersText := ⟨[bytes "3.0.0.1"], bytes "4.0.0.1", by decide, by decide⟩

/-- The second server is read as `4.0.0.`. -/
theorem serversLaw_unterminated : ¬∀ (junk : Junk) (file : ServersText), ServersLaw junk file := by
  intro h
  obtain ⟨t, hparse, hips, -⟩ := h zeroJunk unterminated
  have hread : ((parseServerFile zeroJunk (some unterminated.bytes) init).map fun r => ips r.2 r.2.servers.header) =
      some [bytes "3.0.0.1", bytes "4.0.0."] := by
    decide
  rw [hparse, Option.map_some, hips] at hread
  exact absurd hread (by decide)

end Example

end VideoCDN.Nameserver
