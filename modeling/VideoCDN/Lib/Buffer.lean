import Mathlib.Data.List.Basic

/-!
# Fixed-size buffers

A buffer is the list of its bytes. A load or a store outside it has no result. Where a buffer
starts out zero, the list may hold the bytes up to the last one written only, and stands for
itself followed by zeros.
-/

namespace Buffer

variable {α : Type*}

def store (buf : List α) (i : Nat) (v : α) : Option (List α) :=
  if i < buf.length then some (buf.set i v) else none

/-- Copies `src` into the buffer at position `i`. -/
def blit (buf : List α) (i : Nat) (src : List α) : Option (List α) :=
  if i + src.length ≤ buf.length then some (buf.take i ++ src ++ buf.drop (i + src.length)) else none

/-- Copies `n` bytes from position `src` to position `dst`; the two places may overlap. -/
def move (buf : List α) (dst src n : Nat) : Option (List α) :=
  if src + n ≤ buf.length then blit buf dst ((buf.drop src).take n) else none

@[simp] lemma store_append (pre tail : List α) (x v : α) :
    store (pre ++ x :: tail) pre.length v = some (pre ++ v :: tail) := by
  simp [store]

lemma store_at (buf pre tail : List α) (x v : α) (i : Nat) (hbuf : buf = pre ++ x :: tail)
    (hi : i = pre.length) : store buf i v = some (pre ++ v :: tail) := by
  subst hbuf hi
  exact store_append pre tail x v

lemma blit_at (buf pre old tail src : List α) (i : Nat) (hbuf : buf = pre ++ old ++ tail)
    (hi : i = pre.length) (hlen : src.length = old.length) :
    blit buf i src = some (pre ++ src ++ tail) := by
  subst hbuf hi
  have hdrop : (pre ++ old ++ tail).drop (pre.length + src.length) = tail := by
    rw [hlen, ← List.length_append, List.drop_left]
  unfold blit
  rw [if_pos (by simp [hlen]), hdrop]
  simp

section Zeroed

/-- The `n` bytes from position `i` on. -/
def fetch (buf : List UInt8) (i n : Nat) : List UInt8 :=
  (buf.drop i).take n ++ List.replicate (n - (buf.length - i)) 0

/-- Copies `src` to position `i`. -/
def put (buf : List UInt8) (i : Nat) (src : List UInt8) : List UInt8 :=
  buf.take i ++ List.replicate (i - buf.length) 0 ++ src ++ buf.drop (i + src.length)

@[simp] lemma length_fetch (buf : List UInt8) (i n : Nat) : (fetch buf i n).length = n := by
  simp only [fetch, List.length_append, List.length_take, List.length_drop, List.length_replicate]
  omega

lemma fetch_eq_take_drop (buf : List UInt8) {i n : Nat} (h : i + n ≤ buf.length) :
    fetch buf i n = (buf.drop i).take n := by
  have hzero : n - (buf.length - i) = 0 := by omega
  simp [fetch, hzero]

lemma put_eq (buf : List UInt8) {i : Nat} (hi : i ≤ buf.length) (src : List UInt8) :
    put buf i src = buf.take i ++ src ++ buf.drop (i + src.length) := by
  have hzero : i - buf.length = 0 := by omega
  simp [put, hzero]

@[simp] lemma put_zero (buf src : List UInt8) : put buf 0 src = src ++ buf.drop src.length := by
  simp [put]

/-! A buffer of `n` bytes, all of them listed, is `fetch buf 0 n`. -/

lemma fetch_eq_append {buf : List UInt8} {n : Nat} (h : buf.length ≤ n) :
    fetch buf 0 n = buf ++ List.replicate (n - buf.length) 0 := by
  rw [fetch, List.drop_zero, List.take_of_length_le h, Nat.sub_zero]

lemma getElem?_fetch (buf : List UInt8) (i n k : Nat) :
    (fetch buf i n)[k]? = if k < n then some (buf[i + k]?.getD 0) else none := by
  rw [fetch, List.getElem?_append, List.getElem?_replicate, List.length_take, List.length_drop]
  split
  · rw [List.getElem?_take_of_lt (by omega), List.getElem?_drop, if_pos (by omega), List.getElem?_eq_getElem (by omega),
      Option.getD_some]
  · by_cases hk : k < n
    · rw [if_pos (by omega), if_pos hk, List.getElem?_eq_none (by omega), Option.getD_none]
    · rw [if_neg (by omega), if_neg hk]

lemma getElem?_put (buf : List UInt8) (i : Nat) (src : List UInt8) (k : Nat) :
    (put buf i src)[k]?.getD 0 = if i ≤ k ∧ k < i + src.length then src[k - i]?.getD 0 else buf[k]?.getD 0 := by
  have hfront : (buf.take i ++ List.replicate (i - buf.length) 0).length = i := by
    rw [List.length_append, List.length_take, List.length_replicate]
    omega
  rw [put, List.append_assoc, List.getElem?_append, hfront]
  split
  · rw [if_neg (by omega), List.getElem?_append, List.getElem?_replicate, List.length_take]
    split
    · rw [List.getElem?_take_of_lt (by omega)]
    · rw [if_pos (by omega), List.getElem?_eq_none (l := buf) (by omega), Option.getD_some, Option.getD_none]
  · rw [List.getElem?_append]
    split
    · rw [if_pos (by omega)]
    · rw [if_neg (by omega), List.getElem?_drop]
      congr 2
      omega

lemma take_drop_fetch (buf : List UInt8) {i n m : Nat} (h : i + n ≤ m) :
    ((fetch buf 0 m).drop i).take n = fetch buf i n := by
  rw [← fetch_eq_take_drop _ (by rw [length_fetch]; exact h)]
  apply List.ext_getElem?
  intro k
  rw [getElem?_fetch, getElem?_fetch, getElem?_fetch]
  by_cases hk : k < n
  · rw [if_pos hk, if_pos hk, if_pos (by omega), Option.getD_some, Nat.zero_add]
  · rw [if_neg hk, if_neg hk]

lemma blit_fetch (buf src : List UInt8) {i m : Nat} (h : i + src.length ≤ m) :
    blit (fetch buf 0 m) i src = some (fetch (put buf i src) 0 m) := by
  rw [blit, if_pos (by rw [length_fetch]; exact h), Option.some.injEq]
  apply List.ext_getElem?
  intro k
  rw [getElem?_fetch, Nat.zero_add, getElem?_put, List.append_assoc, List.getElem?_append, List.length_take,
    length_fetch, Nat.min_eq_left (by omega)]
  by_cases hbefore : k < i
  · have hout : ¬(i ≤ k ∧ k < i + src.length) := by omega
    rw [if_pos hbefore, List.getElem?_take_of_lt hbefore, getElem?_fetch, Nat.zero_add, if_neg hout]
  rw [if_neg hbefore, List.getElem?_append, List.getElem?_drop]
  by_cases hinside : k < i + src.length
  · have hat : k - i < src.length := by omega
    rw [if_pos hat, if_pos (by omega), if_pos ⟨by omega, hinside⟩, List.getElem?_eq_getElem hat, Option.getD_some]
  · have hout : ¬(i ≤ k ∧ k < i + src.length) := by omega
    have hback : i + src.length + (k - i - src.length) = k := by omega
    rw [if_neg (by omega), hback, getElem?_fetch, Nat.zero_add, if_neg hout]

end Zeroed

/-! ## What a write leaves alone -/

lemma store_length {buf buf' : List α} {i : Nat} {v : α} (h : store buf i v = some buf') :
    buf'.length = buf.length := by
  unfold store at h
  split at h
  · obtain rfl := Option.some.inj h
    exact List.length_set
  · cases h

lemma store_take {buf buf' : List α} {i n : Nat} {v : α} (h : store buf i v = some buf') (hi : n ≤ i) :
    buf'.take n = buf.take n := by
  unfold store at h
  split at h
  · obtain rfl := Option.some.inj h
    exact List.take_set_of_le hi
  · cases h

lemma blit_take {buf buf' src : List α} {i n : Nat} (h : blit buf i src = some buf') (hi : n ≤ i) :
    buf'.take n = buf.take n := by
  unfold blit at h
  split at h
  · obtain rfl := Option.some.inj h
    have hn : n ≤ (buf.take i).length := by
      rw [List.length_take]
      omega
    rw [List.append_assoc, List.take_append_of_le_length hn, List.take_take, Nat.min_eq_left hi]
  · cases h

end Buffer
