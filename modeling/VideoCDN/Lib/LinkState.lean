import Mathlib.Data.List.Induction
import Mathlib.Logic.Function.Basic

/-!
# Link-state updates with reverse links

Every sender announces its links with a sequence number. A newer announcement replaces the
links of its sender, and the receiver adds the reverse link at every announced neighbor.
The links after a run are characterized by the announcements and their order alone.
-/

namespace LinkState

variable {N : Type*}

/-- A link-state announcement. -/
structure Lsa (N : Type*) where
  sender : N
  seq : Int
  neighbors : List N

/-- The newest sequence number of every node, and the directed links. -/
structure State (N : Type*) where
  seq : N → Int
  links : N → N → Prop

/-- Nothing announced. -/
def State.start : State N := ⟨fun _ => -1, fun _ _ => False⟩

/-- Installs an announcement that is newer than the known one of its sender. -/
def State.install [DecidableEq N] (s : State N) (l : Lsa N) : State N :=
  if s.seq l.sender < l.seq then
    { seq := Function.update s.seq l.sender l.seq
      links := fun u v =>
        if u = l.sender then v ∈ l.neighbors else s.links u v ∨ (u ∈ l.neighbors ∧ v = l.sender) }
  else s

def run [DecidableEq N] (lsas : List (Lsa N)) : State N := lsas.foldl State.install .start

/-- `l`, at position `i`, is the first announcement of `u` with the highest number. -/
def IsLatest (lsas : List (Lsa N)) (u : N) (i : Nat) (l : Lsa N) : Prop :=
  lsas[i]? = some l ∧ l.sender = u ∧
    ∀ j m, lsas[j]? = some m → m.sender = u → m.seq ≤ l.seq ∧ (j < i → m.seq < l.seq)

/-- The latest announcement of `u` lists `v`. -/
def Lists (lsas : List (Lsa N)) (u v : N) : Prop := ∃ i l, IsLatest lsas u i l ∧ v ∈ l.neighbors

/-- `l`, at position `i`, is newer than all earlier announcements of its sender. -/
def IsNews (lsas : List (Lsa N)) (i : Nat) (l : Lsa N) : Prop :=
  lsas[i]? = some l ∧ ∀ j < i, ∀ m, lsas[j]? = some m → m.sender = l.sender → m.seq < l.seq

/-- `l` is newer than all announcements of its sender in `lsas`. -/
def IsNewer (lsas : List (Lsa N)) (l : Lsa N) : Prop :=
  ∀ (i : Nat) (m : Lsa N), lsas[i]? = some m → m.sender = l.sender → m.seq < l.seq

lemma IsLatest.isNews {lsas : List (Lsa N)} {u : N} {i : Nat} {l : Lsa N} (h : IsLatest lsas u i l) :
    IsNews lsas i l :=
  ⟨h.1, fun j hj m hm hs => (h.2.2 j m hm (hs.trans h.2.1)).2 hj⟩

/-- The latest announcement is the last one that was news. -/
lemma IsNews.le_latest {lsas : List (Lsa N)} {i j : Nat} {l m : Lsa N} (h : IsNews lsas i l)
    (hm : IsLatest lsas l.sender j m) : i ≤ j := by
  by_contra hlt
  have h1 := h.2 j (by omega) m hm.1 hm.2.1
  have h2 := (hm.2.2 i l h.1 rfl).1
  omega

lemma IsLatest.unique {lsas : List (Lsa N)} {u : N} {i j : Nat} {l m : Lsa N} (hl : IsLatest lsas u i l)
    (hm : IsLatest lsas u j m) : i = j ∧ l = m := by
  have hle : i ≤ j := hl.isNews.le_latest (hl.2.1 ▸ hm)
  have hge : j ≤ i := hm.isNews.le_latest (hm.2.1 ▸ hl)
  obtain rfl : i = j := by omega
  exact ⟨rfl, Option.some.inj (hl.1.symm.trans hm.1)⟩

section Append

variable {lsas : List (Lsa N)} {l : Lsa N}

lemma getElem?_append_singleton {α : Type*} (xs : List α) (x : α) (i : Nat) (y : α) :
    (xs ++ [x])[i]? = some y ↔ xs[i]? = some y ∨ (i = xs.length ∧ y = x) := by
  rcases Nat.lt_trichotomy i xs.length with h | h | h
  · rw [List.getElem?_append_left h]
    constructor
    · exact Or.inl
    · rintro (h' | ⟨rfl, -⟩)
      · exact h'
      · omega
  · subst h
    simp [eq_comm]
  · have hnone : (xs ++ [x])[i]? = none := List.getElem?_eq_none (by simp; omega)
    have hnone' : xs[i]? = none := List.getElem?_eq_none (by omega)
    rw [hnone, hnone']
    simp
    omega

lemma lt_of_getElem?_eq_some {α : Type*} {xs : List α} {i : Nat} {y : α} (h : xs[i]? = some y) :
    i < xs.length := (List.getElem?_eq_some_iff.mp h).1

/-- Another announcement that is not news to its sender leaves the latest ones as they are. -/
lemma isLatest_append_old (h : ¬IsNewer lsas l) {u : N}
    {i : Nat} {m : Lsa N} : IsLatest (lsas ++ [l]) u i m ↔ IsLatest lsas u i m := by
  unfold IsNewer at h
  push Not at h
  obtain ⟨k, o, ho, hos, hlo⟩ := h
  have hk := lt_of_getElem?_eq_some ho
  constructor
  · rintro ⟨hget, hs, hmax⟩
    have hget' : lsas[i]? = some m := by
      rcases (getElem?_append_singleton _ _ _ _).mp hget with hget | ⟨rfl, rfl⟩
      · exact hget
      · have := (hmax k o ((getElem?_append_singleton _ _ _ _).mpr (Or.inl ho)) (hos.trans hs)).2 hk
        omega
    exact ⟨hget', hs, fun j x hx hxs => hmax j x ((getElem?_append_singleton _ _ _ _).mpr (Or.inl hx)) hxs⟩
  · rintro ⟨hget, hs, hmax⟩
    refine ⟨(getElem?_append_singleton _ _ _ _).mpr (Or.inl hget), hs, fun j x hx hxs => ?_⟩
    rcases (getElem?_append_singleton _ _ _ _).mp hx with hx | ⟨rfl, rfl⟩
    · exact hmax j x hx hxs
    · have hi := lt_of_getElem?_eq_some hget
      have := (hmax k o ho (hos.trans hxs)).1
      exact ⟨by omega, by omega⟩

/-- News is the latest announcement of its sender, and changes no other. -/
lemma isLatest_append_news (h : IsNewer lsas l) {u : N}
    {i : Nat} {m : Lsa N} :
    IsLatest (lsas ++ [l]) u i m ↔
      (u = l.sender ∧ i = lsas.length ∧ m = l) ∨ (u ≠ l.sender ∧ IsLatest lsas u i m) := by
  constructor
  · rintro ⟨hget, rfl, hmax⟩
    rcases (getElem?_append_singleton _ _ _ _).mp hget with hget | ⟨rfl, rfl⟩
    · refine Or.inr ⟨fun hs => ?_, hget, rfl, fun j x hx hxs =>
        hmax j x ((getElem?_append_singleton _ _ _ _).mpr (Or.inl hx)) hxs⟩
      have h1 := h i m hget hs
      have h2 := (hmax lsas.length l ((getElem?_append_singleton _ _ _ _).mpr (Or.inr ⟨rfl, rfl⟩)) hs.symm).1
      omega
    · exact Or.inl ⟨rfl, rfl, rfl⟩
  · rintro (⟨rfl, rfl, rfl⟩ | ⟨hne, hget, hs, hmax⟩)
    · refine ⟨(getElem?_append_singleton _ _ _ _).mpr (Or.inr ⟨rfl, rfl⟩), rfl, fun j x hx hxs => ?_⟩
      rcases (getElem?_append_singleton _ _ _ _).mp hx with hx | ⟨rfl, rfl⟩
      · have := h j x hx hxs
        exact ⟨by omega, fun _ => this⟩
      · exact ⟨by omega, fun hlt => by omega⟩
    · refine ⟨(getElem?_append_singleton _ _ _ _).mpr (Or.inl hget), hs, fun j x hx hxs => ?_⟩
      rcases (getElem?_append_singleton _ _ _ _).mp hx with hx | ⟨rfl, rfl⟩
      · exact hmax j x hx hxs
      · exact absurd hxs.symm hne

lemma isNews_append {i : Nat} {m : Lsa N} :
    IsNews (lsas ++ [l]) i m ↔ IsNews lsas i m ∨
      (i = lsas.length ∧ m = l ∧ IsNewer lsas l) := by
  constructor
  · rintro ⟨hget, hearlier⟩
    have hold : ∀ j < i, ∀ x, lsas[j]? = some x → x.sender = m.sender → x.seq < m.seq := fun j hj x hx =>
      hearlier j hj x ((getElem?_append_singleton _ _ _ _).mpr (Or.inl hx))
    rcases (getElem?_append_singleton _ _ _ _).mp hget with hget | ⟨rfl, rfl⟩
    · exact Or.inl ⟨hget, hold⟩
    · exact Or.inr ⟨rfl, rfl, fun j x hx => hold j (lt_of_getElem?_eq_some hx) x hx⟩
  · rintro (⟨hget, hearlier⟩ | ⟨rfl, rfl, hnews⟩)
    · refine ⟨(getElem?_append_singleton _ _ _ _).mpr (Or.inl hget), fun j hj x hx => ?_⟩
      have hi := lt_of_getElem?_eq_some hget
      rcases (getElem?_append_singleton _ _ _ _).mp hx with hx | ⟨rfl, -⟩
      · exact hearlier j hj x hx
      · omega
    · refine ⟨(getElem?_append_singleton _ _ _ _).mpr (Or.inr ⟨rfl, rfl⟩), fun j hj x hx => ?_⟩
      rcases (getElem?_append_singleton _ _ _ _).mp hx with hx | ⟨rfl, -⟩
      · exact hnews j x hx
      · omega

end Append

section Run

variable [DecidableEq N] {lsas : List (Lsa N)}

lemma run_append (l : Lsa N) : run (lsas ++ [l]) = (run lsas).install l := by
  simp [run]

/-- The known number of a node is that of its latest announcement, `-1` without one. -/
lemma run_seq (hpos : ∀ l ∈ lsas, 0 ≤ l.seq) (u : N) :
    (∃ i l, IsLatest lsas u i l ∧ (run lsas).seq u = l.seq) ∨
      ((∀ l ∈ lsas, l.sender ≠ u) ∧ (run lsas).seq u = -1) := by
  induction lsas using List.reverseRecOn generalizing u with
  | nil => exact Or.inr ⟨by simp, rfl⟩
  | append_singleton lsas l ih =>
    have hl : 0 ≤ l.seq := hpos l (by simp)
    have ih := fun u => ih (fun m hm => hpos m (by simp [hm])) u
    rw [run_append, State.install]
    by_cases hnew : (run lsas).seq l.sender < l.seq
    · rw [if_pos hnew]
      have hnews : IsNewer lsas l := by
        intro i m hm hs
        rcases ih l.sender with ⟨j, o, ho, hseq⟩ | ⟨hnone, -⟩
        · have := (ho.2.2 i m hm hs).1
          omega
        · exact absurd hs (hnone m (List.mem_of_getElem? hm))
      by_cases hu : u = l.sender
      · subst hu
        exact Or.inl ⟨lsas.length, l, (isLatest_append_news hnews).mpr (Or.inl ⟨rfl, rfl, rfl⟩), by simp⟩
      · rcases ih u with ⟨j, o, ho, hseq⟩ | ⟨hnone, hseq⟩
        · exact Or.inl ⟨j, o, (isLatest_append_news hnews).mpr (Or.inr ⟨hu, ho⟩), by simp [hu, hseq]⟩
        · refine Or.inr ⟨fun m hm => ?_, by simp [hu, hseq]⟩
          rcases List.mem_append.mp hm with hm | hm
          · exact hnone m hm
          · rw [List.mem_singleton.mp hm]
            exact Ne.symm hu
    · rw [if_neg hnew]
      obtain ⟨k, o, ho, hseqo⟩ : ∃ i m, IsLatest lsas l.sender i m ∧ (run lsas).seq l.sender = m.seq := by
        rcases ih l.sender with h | ⟨-, hseq⟩
        · exact h
        · omega
      have hold : ¬IsNewer lsas l := fun h => by
        have := h k o ho.1 ho.2.1
        omega
      rcases ih u with ⟨j, m, hm, hseq⟩ | ⟨hnone, hseq⟩
      · exact Or.inl ⟨j, m, (isLatest_append_old hold).mpr hm, hseq⟩
      · refine Or.inr ⟨fun m hm => ?_, hseq⟩
        rcases List.mem_append.mp hm with hm | hm
        · exact hnone m hm
        · rintro rfl
          rw [List.mem_singleton.mp hm] at hnone
          exact hnone o (List.mem_of_getElem? ho.1) ho.2.1

lemma install_news_iff (hpos : ∀ l ∈ lsas, 0 ≤ l.seq) (l : Lsa N) (hl : 0 ≤ l.seq) :
    (run lsas).seq l.sender < l.seq ↔ IsNewer lsas l := by
  rcases run_seq hpos l.sender with ⟨j, o, ho, hseq⟩ | ⟨hnone, hseq⟩
  · constructor
    · intro h i m hm hs
      have := (ho.2.2 i m hm hs).1
      omega
    · intro h
      have := h j o ho.1 ho.2.1
      omega
  · constructor
    · intro _ i m hm hs
      exact absurd hs (hnone m (List.mem_of_getElem? hm))
    · intro _
      omega

/-- A link is there because the latest announcement of its source lists it, or as the reverse
of one announced when the source's latest announcement was already in. -/
theorem run_links_iff (hpos : ∀ l ∈ lsas, 0 ≤ l.seq) (u v : N) :
    (run lsas).links u v ↔ Lists lsas u v ∨
      ∃ k m, IsNews lsas k m ∧ m.sender = v ∧ u ∈ m.neighbors ∧ u ≠ v ∧ ∀ i l, IsLatest lsas u i l → i < k := by
  induction lsas using List.reverseRecOn with
  | nil => simp [run, State.start, Lists, IsLatest, IsNews]
  | append_singleton lsas l ih =>
    have hpos' : ∀ m ∈ lsas, 0 ≤ m.seq := fun m hm => hpos m (by simp [hm])
    have hnewsiff := install_news_iff hpos' l (hpos l (by simp))
    have ih := ih hpos'
    rw [run_append, State.install]
    by_cases hnew : (run lsas).seq l.sender < l.seq
    · have hnews := hnewsiff.mp hnew
      rw [if_pos hnew]
      by_cases hu : u = l.sender
      · subst hu
        simp only [if_true]
        constructor
        · exact fun hv => Or.inl ⟨lsas.length, l, (isLatest_append_news hnews).mpr (Or.inl ⟨rfl, rfl, rfl⟩), hv⟩
        · rintro (⟨i, m, hm, hv⟩ | ⟨k, m, hm, -, -, -, hk⟩)
          · rcases (isLatest_append_news hnews).mp hm with ⟨-, -, rfl⟩ | ⟨hne, -⟩
            · exact hv
            · exact absurd rfl hne
          · -- nothing comes after the last announcement
            have hlast := hk lsas.length l ((isLatest_append_news hnews).mpr (Or.inl ⟨rfl, rfl, rfl⟩))
            have hlt := lt_of_getElem?_eq_some hm.1
            simp only [List.length_append, List.length_singleton] at hlt
            omega
      · have hlatest : ∀ i m, IsLatest (lsas ++ [l]) u i m ↔ IsLatest lsas u i m := fun i m => by
          rw [isLatest_append_news hnews]
          simp [hu]
        simp only [if_neg hu, ih, Lists, hlatest, isNews_append]
        constructor
        · rintro ((h | ⟨k, m, hm, hs, hmem, hne, hk⟩) | ⟨hmem, rfl⟩)
          · exact Or.inl h
          · exact Or.inr ⟨k, m, Or.inl hm, hs, hmem, hne, hk⟩
          · exact Or.inr ⟨lsas.length, l, Or.inr ⟨rfl, rfl, hnews⟩, rfl, hmem, hu,
              fun i x hx => lt_of_getElem?_eq_some hx.1⟩
        · rintro (h | ⟨k, m, hm | ⟨rfl, rfl, -⟩, hs, hmem, hne, hk⟩)
          · exact Or.inl (Or.inl h)
          · exact Or.inl (Or.inr ⟨k, m, hm, hs, hmem, hne, hk⟩)
          · exact Or.inr ⟨hmem, hs.symm⟩
    · have hold := fun h => hnew (hnewsiff.mpr h)
      rw [if_neg hnew, ih]
      have hnewsold : ∀ k m, IsNews (lsas ++ [l]) k m ↔ IsNews lsas k m := fun k m => by
        rw [isNews_append]
        constructor
        · rintro (h | ⟨-, -, h⟩)
          · exact h
          · exact absurd h hold
        · exact Or.inl
      simp only [Lists, isLatest_append_old hold, hnewsold]

/-- Links in both directions agree with the latest announcements exactly when every link that
only one of its ends announces is announced after the other end's latest announcement. -/
theorem mutual_iff_lists_iff (hpos : ∀ l ∈ lsas, 0 ≤ l.seq) :
    (∀ u v, ((run lsas).links u v ∧ (run lsas).links v u) ↔ (Lists lsas u v ∨ Lists lsas v u)) ↔
      ∀ u v i l j m, IsLatest lsas u i l → v ∈ l.neighbors → IsLatest lsas v j m → u ∉ m.neighbors → j < i := by
  have hlinks := run_links_iff hpos
  constructor
  · intro h u v i l j m hl hv hm hu
    have hvu := (hlinks v u).mp ((h u v).mpr (Or.inl ⟨i, l, hl, hv⟩)).2
    rcases hvu with ⟨j', m', hm', hu'⟩ | ⟨k, x, hx, rfl, -, -, hk⟩
    · obtain ⟨rfl, rfl⟩ := hm'.unique hm
      exact absurd hu' hu
    · have h1 := hk j m hm
      have h2 := hx.le_latest hl
      omega
  · intro h
    have hone : ∀ u v, Lists lsas u v → (run lsas).links u v ∧ (run lsas).links v u := by
      rintro u v ⟨i, l, hl, hv⟩
      refine ⟨(hlinks u v).mpr (Or.inl ⟨i, l, hl, hv⟩), (hlinks v u).mpr ?_⟩
      by_cases hvu : Lists lsas v u
      · exact Or.inl hvu
      · refine Or.inr ⟨i, l, hl.isNews, hl.2.1, hv, ?_, fun j m hm => ?_⟩
        · rintro rfl
          exact hvu ⟨i, l, hl, hv⟩
        · exact h u v i l j m hl hv hm fun hu => hvu ⟨j, m, hm, hu⟩
    intro u v
    constructor
    · rintro ⟨huv, hvu⟩
      by_contra hneither
      rw [not_or] at hneither
      -- each link would be the reverse of one announced after the other's
      obtain ⟨k, m, hm, rfl, -, -, hk⟩ := ((hlinks u v).mp huv).resolve_left hneither.1
      obtain ⟨k', m', hm', rfl, -, -, hk'⟩ := ((hlinks _ _).mp hvu).resolve_left hneither.2
      have hlatest : ∀ i x, IsNews lsas i x → ∃ j y, IsLatest lsas x.sender j y := by
        intro i x hx
        rcases run_seq hpos x.sender with ⟨j, y, hy, -⟩ | ⟨hnone, -⟩
        · exact ⟨j, y, hy⟩
        · exact absurd rfl (hnone x (List.mem_of_getElem? hx.1))
      obtain ⟨j, y, hy⟩ := hlatest k m hm
      obtain ⟨j', y', hy'⟩ := hlatest k' m' hm'
      have h1 := hm.le_latest hy
      have h2 := hm'.le_latest hy'
      have h3 := hk j' y' hy'
      have h4 := hk' j y hy
      omega
    · rintro (h' | h')
      · exact hone u v h'
      · exact (hone v u h').symm

end Run

end LinkState
