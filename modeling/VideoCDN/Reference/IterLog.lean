import VideoCDN.Lib.Inet
import VideoCDN.Lib.LogText

/-!
# Reading the logs

`iter_log` of the tests of the project reads the log of the nameserver and that of the proxy.
-/

namespace VideoCDN.Reference

open CString Inet

/-- `iter_log`: the lines that are not blank, split at the blanks. -/
def iterLog (text : List UInt8) : List (List (List UInt8)) := LogText.readLog isspace 10 text

/-- A field with a blank in it, or with nothing, is not read back. -/
def IsLogWord (w : List UInt8) : Prop := LogText.IsWord isspace w

lemma iterLog_writeLog_iff {records : List (List (List UInt8))} (hrecords : ∀ r ∈ records, r ≠ []) :
    iterLog (LogText.writeLog 32 10 records) = records ↔ ∀ r ∈ records, ∀ w ∈ r, IsLogWord w :=
  LogText.readLog_writeLog_iff (by decide) (by decide) (by decide) hrecords

lemma isLogWord_decimal (n : Nat) : IsLogWord (decimal n) :=
  ⟨decimal_ne_nil n, fun c hc => not_isspace_of_isdigit (isdigit_of_mem_decimal n c hc)⟩

lemma isLogWord_decimalInt (n : Int) : IsLogWord (decimalInt n) := by
  cases n with
  | ofNat n => exact isLogWord_decimal n
  | negSucc n =>
    refine ⟨List.cons_ne_nil _ _, fun c hc => ?_⟩
    rcases List.mem_cons.mp hc with rfl | hc
    · decide
    · exact (isLogWord_decimal (n + 1)).2 c hc

lemma mem_inetNtoa {a : InAddr} {c : UInt8} (hc : c ∈ inetNtoa a) : c = 46 ∨ isdigit c = true := by
  simp only [inetNtoa, List.mem_append, List.mem_cons] at hc
  rcases hc with hc | hc | hc | hc | hc | hc | hc
  · exact Or.inr (isdigit_of_mem_decimal _ c hc)
  · exact Or.inl hc
  · exact Or.inr (isdigit_of_mem_decimal _ c hc)
  · exact Or.inl hc
  · exact Or.inr (isdigit_of_mem_decimal _ c hc)
  · exact Or.inl hc
  · exact Or.inr (isdigit_of_mem_decimal _ c hc)

lemma isLogWord_inetNtoa (a : InAddr) : IsLogWord (inetNtoa a) := by
  refine ⟨by simp [inetNtoa], fun c hc => ?_⟩
  rcases mem_inetNtoa hc with rfl | hdigit
  · decide
  · exact not_isspace_of_isdigit hdigit

lemma cstr_inetNtoa (a : InAddr) : cstr (inetNtoa a) = inetNtoa a := by
  apply cstr_eq_self
  intro c hc
  rcases mem_inetNtoa hc with rfl | hdigit
  · decide
  · exact ne_of_isdigit hdigit (by decide)

end VideoCDN.Reference
