import Mathlib.Data.List.DropRight
import Mathlib.Data.List.TakeWhile

/-!
# Logs of words

A log has a line for each record, with the fields of the record between separators. It is read line by line,
and a line at its blanks. What is read are the records that were written, if each field is a word.
-/

namespace LogText

variable {α : Type*} (isSpace : α → Bool) (sp nl : α)

/-- The line without the blanks at its ends. -/
def strip (line : List α) : List α := (line.dropWhile isSpace).rdropWhile isSpace

/-- What is between the blanks of a line. -/
def words (line : List α) : List (List α) := (line.splitOnP isSpace).filter (· ≠ [])

/-- The fields of a line, if there is something in it. -/
def readLine (line : List α) : Option (List (List α)) :=
  if strip isSpace line = [] then none else some (words isSpace (strip isSpace line))

/-- The fields of each line of a text. -/
def readLog [DecidableEq α] (text : List α) : List (List (List α)) := (text.splitOn nl).filterMap (readLine isSpace)

def writeLine (fields : List (List α)) : List α := [sp].intercalate fields ++ [nl]

def writeLog (records : List (List (List α))) : List α := records.flatMap (writeLine sp nl)

/-- A field that is read back. -/
def IsWord (w : List α) : Prop := w ≠ [] ∧ ∀ c ∈ w, isSpace c = false

instance (w : List α) : Decidable (IsWord isSpace w) := inferInstanceAs (Decidable (_ ∧ _))

variable {isSpace sp nl}

/-! ## Reading yields words -/

lemma not_space_of_mem_splitOnP (line : List α) : ∀ w ∈ line.splitOnP isSpace, ∀ c ∈ w, isSpace c = false := by
  induction line with
  | nil => simp
  | cons c line ih =>
    rw [List.splitOnP_cons_eq_if_modifyHead]
    by_cases hc : isSpace c = true
    · rw [if_pos hc]
      simpa using ih
    · rw [if_neg hc]
      intro w hw
      obtain ⟨head, tail, hsplit⟩ := List.exists_cons_of_ne_nil (List.splitOnP_ne_nil isSpace line)
      rw [hsplit] at ih hw
      rcases List.mem_cons.mp hw with rfl | hw
      · intro x hx
        rcases List.mem_cons.mp hx with rfl | hx
        · exact Bool.eq_false_iff.mpr hc
        · exact ih head List.mem_cons_self x hx
      · exact ih w (List.mem_cons_of_mem head hw)

lemma isWord_of_mem_words {line w : List α} (h : w ∈ words isSpace line) : IsWord isSpace w := by
  obtain ⟨hmem, hne⟩ := List.mem_filter.mp h
  exact ⟨of_decide_eq_true hne, not_space_of_mem_splitOnP line w hmem⟩

lemma isWord_of_mem_readLog [DecidableEq α] {text w : List α} {fields : List (List α)}
    (h : fields ∈ readLog isSpace nl text) (hw : w ∈ fields) : IsWord isSpace w := by
  obtain ⟨line, -, hline⟩ := List.mem_filterMap.mp h
  unfold readLine at hline
  split at hline
  · cases hline
  · obtain rfl := Option.some.inj hline
    exact isWord_of_mem_words hw

/-! ## Reading what was written -/

lemma words_cons (hsp : isSpace sp = true) {w : List α} (hw : IsWord isSpace w) (rest : List α) :
    words isSpace (w ++ sp :: rest) = w :: words isSpace rest := by
  have hne : decide (w ≠ []) = true := decide_eq_true hw.1
  rw [words, List.splitOnP_append_cons_of_forall_mem hw.2 sp hsp, List.filter_cons, if_pos hne, words]

lemma words_intercalate (hsp : isSpace sp = true) {w : List α} {fields : List (List α)}
    (h : ∀ x ∈ w :: fields, IsWord isSpace x) : words isSpace ([sp].intercalate (w :: fields)) = w :: fields := by
  induction fields generalizing w with
  | nil =>
    have hw := h w List.mem_cons_self
    have hne : decide (w ≠ []) = true := decide_eq_true hw.1
    rw [List.intercalate_singleton, words, List.splitOnP_eq_singleton hw.2, List.filter_cons, if_pos hne,
      List.filter_nil]
  | cons x fields ih =>
    rw [List.intercalate_cons_cons, List.append_assoc, List.singleton_append,
      words_cons hsp (h w List.mem_cons_self), ih fun y hy => h y (List.mem_cons_of_mem w hy)]

lemma strip_eq_self {first last : α} {line : List α} (hfirst : line.head? = some first)
    (hlast : line.getLast? = some last) (hf : isSpace first = false) (hl : isSpace last = false) :
    strip isSpace line = line := by
  have hdrop : line.dropWhile isSpace = line := by
    cases line with
    | nil => rfl
    | cons c line =>
      obtain rfl := Option.some.inj hfirst
      rw [List.dropWhile_cons_of_neg (Bool.eq_false_iff.mp hf)]
  rw [strip, hdrop, List.rdropWhile_eq_self_iff]
  intro hne
  rw [List.getLast?_eq_some_getLast hne] at hlast
  rw [Option.some.inj hlast]
  exact Bool.eq_false_iff.mp hl

lemma head_intercalate (sp : α) {w : List α} (fields : List (List α)) (hw : IsWord isSpace w) :
    ∃ c, ([sp].intercalate (w :: fields)).head? = some c ∧ isSpace c = false := by
  obtain ⟨c, w, rfl⟩ := List.exists_cons_of_ne_nil hw.1
  refine ⟨c, ?_, hw.2 c List.mem_cons_self⟩
  cases fields with
  | nil => simp
  | cons x fields => simp [List.intercalate_cons_cons]

lemma getLast_intercalate (sp : α) {w : List α} {fields : List (List α)} (h : ∀ x ∈ w :: fields, IsWord isSpace x) :
    ∃ c, ([sp].intercalate (w :: fields)).getLast? = some c ∧ isSpace c = false := by
  induction fields generalizing w with
  | nil =>
    have hw := h w List.mem_cons_self
    rw [List.intercalate_singleton]
    exact ⟨w.getLast hw.1, List.getLast?_eq_some_getLast hw.1, hw.2 _ (List.getLast_mem hw.1)⟩
  | cons x fields ih =>
    obtain ⟨c, hc, hspace⟩ := ih fun y hy => h y (List.mem_cons_of_mem w hy)
    refine ⟨c, ?_, hspace⟩
    rw [List.intercalate_cons_cons, List.getLast?_append, hc]
    rfl

lemma readLine_intercalate (hsp : isSpace sp = true) {fields : List (List α)} (hne : fields ≠ [])
    (h : ∀ w ∈ fields, IsWord isSpace w) : readLine isSpace ([sp].intercalate fields) = some fields := by
  obtain ⟨w, fields, rfl⟩ := List.exists_cons_of_ne_nil hne
  obtain ⟨first, hfirst, hf⟩ := head_intercalate sp fields (h w List.mem_cons_self)
  obtain ⟨last, hlast, hl⟩ := getLast_intercalate sp h
  have hstrip := strip_eq_self hfirst hlast hf hl
  have hline : [sp].intercalate (w :: fields) ≠ [] := by
    intro hnil
    rw [hnil] at hfirst
    cases hfirst
  rw [readLine, hstrip, if_neg hline, words_intercalate hsp h]

lemma not_mem_intercalate (hnl : isSpace nl = true) (hne : sp ≠ nl) {fields : List (List α)}
    (h : ∀ w ∈ fields, IsWord isSpace w) : nl ∉ [sp].intercalate fields := by
  have hword : ∀ w ∈ fields, nl ∉ w := by
    intro w hw hmem
    rw [(h w hw).2 nl hmem] at hnl
    cases hnl
  induction fields with
  | nil => simp
  | cons w fields ih =>
    have hw := hword w List.mem_cons_self
    cases fields with
    | nil => rwa [List.intercalate_singleton]
    | cons x fields =>
      have hrest := ih (fun y hy => h y (List.mem_cons_of_mem w hy)) fun y hy => hword y (List.mem_cons_of_mem w hy)
      rw [List.intercalate_cons_cons]
      simp [hw, hne.symm, hrest]

/-- The records are read back if and only if each of their fields is a word. -/
theorem readLog_writeLog_iff [DecidableEq α] (hsp : isSpace sp = true) (hnl : isSpace nl = true) (hne : sp ≠ nl)
    {records : List (List (List α))} (hrecords : ∀ r ∈ records, r ≠ []) :
    readLog isSpace nl (writeLog sp nl records) = records ↔ ∀ r ∈ records, ∀ w ∈ r, IsWord isSpace w := by
  constructor
  · intro h r hr w hw
    rw [← h] at hr
    exact isWord_of_mem_readLog hr hw
  · intro h
    induction records with
    | nil =>
      have hempty : readLine isSpace ([] : List α) = none := if_pos rfl
      simp [writeLog, readLog, hempty]
    | cons r records ih =>
      have hr := h r List.mem_cons_self
      have hline := readLine_intercalate hsp (hrecords r List.mem_cons_self) hr
      have hrest := ih (fun x hx => hrecords x (List.mem_cons_of_mem r hx)) fun x hx => h x (List.mem_cons_of_mem r hx)
      rw [readLog, writeLog, List.flatMap_cons, writeLine, List.append_assoc, List.singleton_append,
        List.splitOn_append_cons_self_of_not_mem (not_mem_intercalate hnl hne hr), List.filterMap_cons_some hline]
      rw [readLog, writeLog] at hrest
      rw [hrest]

end LogText
