import Mathlib.Data.List.Nodup

/-! # Tables with a primary key

    A `Table ρ key` is a list of rows in which no two rows have the same
    key; the uniqueness is a field, so every operation carries its proof.

    * `insert?` refuses a row whose key is taken.
    * `modify` rewrites the row of one key, `mapRows` every row; neither
      may change a key.
    * `upsert` rewrites the row of the new row's key or appends it;
      `upsertAll` does so with one row after another, and the last row of
      a key stays (`find?_upsertAll`).
    * `deleteWhere` drops rows. -/

namespace KeyedTable

universe u v

variable {ρ : Type u} {κ : Type v}

/-- Rows with pairwise distinct keys, in their physical order. -/
structure Table (ρ : Type u) {κ : Type v} (key : ρ → κ) where
  rows : List ρ
  nodup : (rows.map key).Nodup

namespace Table

variable {key : ρ → κ}

@[ext] theorem ext {t t' : Table ρ key} (h : t.rows = t'.rows) : t = t' := by
  cases t; cases t'; cases h; rfl

def empty : Table ρ key := ⟨[], List.nodup_nil⟩

@[simp] theorem rows_empty : (empty : Table ρ key).rows = [] := rfl

/-- Two rows with one key are one row. -/
theorem eq_of_key (t : Table ρ key) {r r' : ρ} (hr : r ∈ t.rows) (hr' : r' ∈ t.rows)
    (h : key r = key r') : r = r' :=
  List.inj_on_of_nodup_map t.nodup hr hr' h

/-! ## Rewriting rows -/

/-- Rewrite every row, keeping its key. -/
def mapRows (t : Table ρ key) (f : ρ → ρ) (hf : ∀ r, key (f r) = key r) : Table ρ key where
  rows := t.rows.map f
  nodup := by
    have : (t.rows.map f).map key = t.rows.map key := by
      rw [List.map_map]
      exact List.map_congr_left fun r _ => hf r
    rw [this]
    exact t.nodup

@[simp] theorem rows_mapRows (t : Table ρ key) (f : ρ → ρ) (hf : ∀ r, key (f r) = key r) :
    (t.mapRows f hf).rows = t.rows.map f := rfl

/-- Drop the rows that satisfy `p`. -/
def deleteWhere (t : Table ρ key) (p : ρ → Bool) : Table ρ key where
  rows := t.rows.filter fun r => !p r
  nodup := t.nodup.sublist (List.filter_sublist.map key)

theorem mem_deleteWhere {t : Table ρ key} {p : ρ → Bool} {r : ρ} :
    r ∈ (t.deleteWhere p).rows ↔ r ∈ t.rows ∧ p r = false := by
  simp [deleteWhere]

section

variable [DecidableEq κ]

/-- The row of key `k`. -/
def find? (t : Table ρ key) (k : κ) : Option ρ :=
  t.rows.find? (fun r => key r = k)

/-- Add a row, unless its key is taken. -/
def insert? (t : Table ρ key) (r : ρ) : Option (Table ρ key) :=
  if h : key r ∈ t.rows.map key then none
  else some ⟨t.rows ++ [r], by
    rw [List.map_append, List.map_singleton]
    exact List.nodup_append.mpr
      ⟨t.nodup, List.nodup_singleton _, fun a ha b hb hab => h (by simp_all)⟩⟩

/-- Rewrite the row of key `k`, keeping its key. -/
def modify (t : Table ρ key) (k : κ) (f : ρ → ρ) (hf : ∀ r, key r = k → key (f r) = k) :
    Table ρ key :=
  t.mapRows (fun r => if key r = k then f r else r) (by
    intro r
    by_cases h : key r = k
    · simp only [if_pos h]; rw [hf r h, h]
    · simp only [if_neg h])

/-- Rewrite the row with the key of `r`, or append `r` where there is none. -/
def upsert (t : Table ρ key) (r : ρ) : Table ρ key :=
  (t.insert? r).getD (t.modify (key r) (fun _ => r) (fun _ _ => rfl))

/-! ## What the operations do -/

theorem find?_eq_some_iff (t : Table ρ key) (k : κ) (r : ρ) :
    t.find? k = some r ↔ r ∈ t.rows ∧ key r = k := by
  constructor
  · intro h
    exact ⟨List.mem_of_find?_eq_some h, by simpa using List.find?_some h⟩
  · intro h
    obtain ⟨hr, hk⟩ := h
    cases hf : t.find? k with
    | none =>
      have := List.find?_eq_none.mp hf r hr
      simp [hk] at this
    | some r' =>
      -- the search stops at the first row of the key, which is the only one
      have hk' : key r' = k := by simpa using List.find?_some hf
      have : r' = r := t.eq_of_key (List.mem_of_find?_eq_some hf) hr (by rw [hk', hk])
      rw [this]

theorem find?_eq_none_iff (t : Table ρ key) (k : κ) :
    t.find? k = none ↔ ∀ r ∈ t.rows, key r ≠ k := by
  simp [find?, List.find?_eq_none]

theorem find?_self (t : Table ρ key) {r : ρ} (hr : r ∈ t.rows) : t.find? (key r) = some r :=
  (t.find?_eq_some_iff (key r) r).mpr ⟨hr, rfl⟩

theorem insert?_eq_none_iff (t : Table ρ key) (r : ρ) :
    t.insert? r = none ↔ t.find? (key r) ≠ none := by
  rw [Ne, find?_eq_none_iff]
  unfold insert?
  split
  · next h =>
    obtain ⟨r', hr', hk⟩ := List.mem_map.mp h
    simp only [true_iff, not_forall]
    exact ⟨r', hr', fun hne => hne hk⟩
  · next h =>
    simp only [reduceCtorEq, false_iff, not_not]
    intro r' hr' hk
    exact h (List.mem_map.mpr ⟨r', hr', hk⟩)

theorem rows_of_insert? {t t' : Table ρ key} {r : ρ} (h : t.insert? r = some t') :
    t'.rows = t.rows ++ [r] := by
  unfold insert? at h
  split at h
  · cases h
  · cases h; rfl

theorem find?_of_insert? {t t' : Table ρ key} {r : ρ} (h : t.insert? r = some t') :
    t.find? (key r) = none := by
  by_contra hne
  have hnone := (t.insert?_eq_none_iff r).mpr hne
  rw [hnone] at h
  cases h

@[simp] theorem rows_modify (t : Table ρ key) (k : κ) (f : ρ → ρ)
    (hf : ∀ r, key r = k → key (f r) = k) :
    (t.modify k f hf).rows = t.rows.map (fun r => if key r = k then f r else r) := rfl

theorem find?_modify_self (t : Table ρ key) (k : κ) (f : ρ → ρ)
    (hf : ∀ r, key r = k → key (f r) = k) : (t.modify k f hf).find? k = (t.find? k).map f := by
  cases h : t.find? k with
  | some r =>
    obtain ⟨hr, hk⟩ := (t.find?_eq_some_iff k r).mp h
    refine (find?_eq_some_iff _ _ _).mpr ⟨?_, hf r hk⟩
    rw [rows_modify, List.mem_map]
    exact ⟨r, hr, if_pos hk⟩
  | none =>
    have hnone := (t.find?_eq_none_iff k).mp h
    refine (find?_eq_none_iff _ _).mpr ?_
    intro r hr hk
    rw [rows_modify, List.mem_map] at hr
    obtain ⟨x, hx, rfl⟩ := hr
    rw [if_neg (hnone x hx)] at hk
    exact hnone x hx hk

theorem find?_modify_of_ne (t : Table ρ key) {k k' : κ} (f : ρ → ρ)
    (hf : ∀ r, key r = k → key (f r) = k) (hk : k' ≠ k) :
    (t.modify k f hf).find? k' = t.find? k' := by
  cases h : t.find? k' with
  | some r =>
    obtain ⟨hr, hrk⟩ := (t.find?_eq_some_iff k' r).mp h
    refine (find?_eq_some_iff _ _ _).mpr ⟨?_, hrk⟩
    rw [rows_modify, List.mem_map]
    exact ⟨r, hr, if_neg (by rw [hrk]; exact hk)⟩
  | none =>
    have hnone := (t.find?_eq_none_iff k').mp h
    refine (find?_eq_none_iff _ _).mpr ?_
    intro r hr hrk
    rw [rows_modify, List.mem_map] at hr
    obtain ⟨x, hx, rfl⟩ := hr
    by_cases hxk : key x = k
    · rw [if_pos hxk, hf x hxk] at hrk
      exact hk hrk.symm
    · rw [if_neg hxk] at hrk
      exact hnone x hx hrk

theorem upsert_of_insert? {t t' : Table ρ key} {r : ρ} (h : t.insert? r = some t') :
    t.upsert r = t' := by
  simp [upsert, h]

theorem upsert_of_find? {t : Table ρ key} {r : ρ} (h : t.find? (key r) ≠ none) :
    t.upsert r = t.modify (key r) (fun _ => r) (fun _ _ => rfl) := by
  have hnone := (t.insert?_eq_none_iff r).mpr h
  simp [upsert, hnone]

/-- After an upsert the table holds the new row and the rows of the other keys. -/
theorem mem_upsert (t : Table ρ key) (r r' : ρ) :
    r' ∈ (t.upsert r).rows ↔ r' = r ∨ (r' ∈ t.rows ∧ key r' ≠ key r) := by
  cases hi : t.insert? r with
  | some t' =>
    rw [upsert_of_insert? hi, rows_of_insert? hi]
    have hfree := (t.find?_eq_none_iff (key r)).mp (find?_of_insert? hi)
    simp only [List.mem_append, List.mem_singleton]
    constructor
    · intro h
      rcases h with h | h
      · exact Or.inr ⟨h, hfree r' h⟩
      · exact Or.inl h
    · intro h
      rcases h with h | ⟨h, _⟩
      · exact Or.inr h
      · exact Or.inl h
  | none =>
    -- the row of the key is rewritten in place
    have htaken := (t.insert?_eq_none_iff r).mp hi
    rw [upsert_of_find? htaken, rows_modify, List.mem_map]
    constructor
    · intro h
      obtain ⟨x, hx, rfl⟩ := h
      by_cases hk : key x = key r
      · simp [hk]
      · simp [hk, hx]
    · intro h
      rcases h with rfl | ⟨h, hk⟩
      · obtain ⟨x, hx⟩ := Option.ne_none_iff_exists'.mp htaken
        obtain ⟨hxr, hxk⟩ := (t.find?_eq_some_iff _ x).mp hx
        exact ⟨x, hxr, by simp [hxk]⟩
      · exact ⟨r', h, by simp [hk]⟩

theorem find?_upsert_self (t : Table ρ key) (r : ρ) : (t.upsert r).find? (key r) = some r :=
  (find?_eq_some_iff _ _ _).mpr ⟨(t.mem_upsert r r).mpr (Or.inl rfl), rfl⟩

theorem find?_upsert_ne (t : Table ρ key) (r : ρ) {k : κ} (hk : k ≠ key r) :
    (t.upsert r).find? k = t.find? k := by
  cases hf : t.find? k with
  | some x =>
    obtain ⟨hx, rfl⟩ := (t.find?_eq_some_iff k x).mp hf
    exact (find?_eq_some_iff _ _ _).mpr ⟨(t.mem_upsert r x).mpr (Or.inr ⟨hx, hk⟩), rfl⟩
  | none =>
    have hnone := (t.find?_eq_none_iff k).mp hf
    refine (find?_eq_none_iff _ _).mpr ?_
    intro x hx hxk
    rcases (t.mem_upsert r x).mp hx with rfl | ⟨hx', _⟩
    · exact hk hxk.symm
    · exact hnone x hx' hxk

theorem find?_upsert_eq_none_iff (t : Table ρ key) (r : ρ) {k : κ} :
    (t.upsert r).find? k = none ↔ k ≠ key r ∧ t.find? k = none := by
  by_cases hk : k = key r
  · subst hk
    simp [find?_upsert_self]
  · simp [find?_upsert_ne t r hk, hk]

/-- Tables that hold the same keys in the same order, and the same rows
    under them, are the same. -/
theorem ext_find? {t t' : Table ρ key} (hkeys : t.rows.map key = t'.rows.map key)
    (hfind : ∀ k, t.find? k = t'.find? k) : t = t' := by
  have hlen : t.rows.length = t'.rows.length := by
    simpa using congrArg List.length hkeys
  refine ext (List.ext_getElem hlen ?_)
  intro i h h'
  have hkey : key t.rows[i] = key t'.rows[i] := by
    have hi := congrArg (·[i]?) hkeys
    simpa [h, h'] using hi
  -- the two rows are what the two tables find under their common key
  have hleft := t.find?_self (List.getElem_mem h)
  have hright := t'.find?_self (List.getElem_mem h')
  rw [hfind, hkey, hright] at hleft
  exact (Option.some.inj hleft).symm

/-- Rewriting the row of a key leaves the keys in place. -/
theorem keys_upsert {t : Table ρ key} {r : ρ} (h : t.find? (key r) ≠ none) :
    (t.upsert r).rows.map key = t.rows.map key := by
  rw [upsert_of_find? h, rows_modify, List.map_map]
  refine List.map_congr_left ?_
  intro x _
  show key (if key x = key r then r else x) = key x
  by_cases hx : key x = key r
  · rw [if_pos hx, hx]
  · rw [if_neg hx]

theorem find?_deleteWhere (t : Table ρ key) (p : ρ → Bool) (k : κ) :
    (t.deleteWhere p).find? k = (t.find? k).filter fun r => !p r := by
  rcases hf : t.find? k with _ | r
  · rw [Option.filter_none, find?_eq_none_iff]
    intro r hr
    exact (t.find?_eq_none_iff k).mp hf r (mem_deleteWhere.mp hr).1
  · obtain ⟨hr, hk⟩ := (t.find?_eq_some_iff k r).mp hf
    cases hp : p r with
    | false =>
      rw [Option.filter_some_pos (by rw [hp]; rfl), find?_eq_some_iff]
      exact ⟨mem_deleteWhere.mpr ⟨hr, hp⟩, hk⟩
    | true =>
      rw [Option.filter_some_neg (by rw [hp]; rfl), find?_eq_none_iff]
      -- a row that is left with this key would be the one that was dropped
      intro r' hr' hk'
      obtain ⟨hin, hkeep⟩ := mem_deleteWhere.mp hr'
      rw [t.eq_of_key hin hr (hk'.trans hk.symm), hp] at hkeep
      cases hkeep

/-! ## Upserting a list -/

/-- Upsert the rows in turn. -/
def upsertAll : Table ρ key → List ρ → Table ρ key
  | t, [] => t
  | t, r :: rs => upsertAll (t.upsert r) rs

/-- **The last row of a key stays**; the other keys keep the row they had. -/
theorem find?_upsertAll (t : Table ρ key) (rs : List ρ) (k : κ) :
    (t.upsertAll rs).find? k =
      ((rs.filter fun r => decide (key r = k)).getLast?).or (t.find? k) := by
  induction rs generalizing t with
  | nil => rfl
  | cons r rs ih =>
    show ((t.upsert r).upsertAll rs).find? k = _
    rw [ih]
    by_cases hk : key r = k
    · subst hk
      rw [find?_upsert_self, List.filter_cons_of_pos (by simp), List.getLast?_cons]
      rcases (rs.filter fun r' => decide (key r' = key r)).getLast? with _ | last <;> rfl
    · rw [find?_upsert_ne t r (Ne.symm hk), List.filter_cons_of_neg (by simpa using hk)]

/-- A row of the result was there or is in the list. -/
theorem mem_upsertAll {t : Table ρ key} {rs : List ρ} {r : ρ} (h : r ∈ (t.upsertAll rs).rows) :
    r ∈ t.rows ∨ r ∈ rs := by
  have hfind := find?_self _ h
  rw [find?_upsertAll] at hfind
  rcases hlast : (rs.filter fun x => decide (key x = key r)).getLast? with _ | last
  · rw [hlast, Option.none_or] at hfind
    exact Or.inl ((t.find?_eq_some_iff _ _).mp hfind).1
  · rw [hlast, Option.some_or, Option.some.injEq] at hfind
    rw [← hfind]
    exact Or.inr (List.mem_filter.mp (List.mem_of_getLast? hlast)).1

theorem find?_upsertAll_ne_none {t : Table ρ key} {rs : List ρ} {r : ρ} (hr : r ∈ rs) :
    (t.upsertAll rs).find? (key r) ≠ none := by
  rw [find?_upsertAll]
  have hmem : r ∈ rs.filter fun x => decide (key x = key r) := by
    simpa using hr
  rcases hlast : (rs.filter fun x => decide (key x = key r)).getLast? with _ | last
  · rw [List.getLast?_eq_none_iff.mp hlast] at hmem
    exact absurd hmem List.not_mem_nil
  · exact Option.some_ne_none last

theorem keys_upsertAll {t : Table ρ key} {rs : List ρ} (h : ∀ r ∈ rs, t.find? (key r) ≠ none) :
    (t.upsertAll rs).rows.map key = t.rows.map key := by
  induction rs generalizing t with
  | nil => rfl
  | cons r rs ih =>
    show ((t.upsert r).upsertAll rs).rows.map key = _
    rw [ih, keys_upsert (h r List.mem_cons_self)]
    intro x hx
    by_cases hk : key x = key r
    · rw [hk, find?_upsert_self]
      exact Option.some_ne_none r
    · rw [find?_upsert_ne t r hk]
      exact h x (List.mem_cons_of_mem _ hx)

theorem rows_upsert_of_new {t : Table ρ key} {r : ρ} (h : t.find? (key r) = none) :
    (t.upsert r).rows = t.rows ++ [r] := by
  rcases hi : t.insert? r with _ | t'
  · exact absurd h ((insert?_eq_none_iff t r).mp hi)
  · rw [upsert_of_insert? hi]
    exact rows_of_insert? hi

/-- Rows of distinct new keys are appended. -/
theorem rows_upsertAll_of_new {t : Table ρ key} {rs : List ρ} (hnodup : (rs.map key).Nodup)
    (h : ∀ r ∈ rs, t.find? (key r) = none) : (t.upsertAll rs).rows = t.rows ++ rs := by
  induction rs generalizing t with
  | nil => exact (List.append_nil t.rows).symm
  | cons r rs ih =>
    rw [List.map_cons, List.nodup_cons] at hnodup
    have hnew := h r List.mem_cons_self
    show ((t.upsert r).upsertAll rs).rows = _
    rw [ih hnodup.2, rows_upsert_of_new hnew, List.append_assoc]
    · rfl
    · intro x hx
      refine (find?_upsert_eq_none_iff t r).mpr ⟨?_, h x (List.mem_cons_of_mem _ hx)⟩
      intro heq
      exact hnodup.1 (heq ▸ List.mem_map_of_mem hx)

/-- Upserting a list once more changes nothing. -/
theorem upsertAll_upsertAll (t : Table ρ key) (rs : List ρ) :
    (t.upsertAll rs).upsertAll rs = t.upsertAll rs := by
  refine ext_find? (keys_upsertAll fun r hr => find?_upsertAll_ne_none hr) ?_
  intro k
  rw [find?_upsertAll, find?_upsertAll]
  rcases (rs.filter fun r => decide (key r = k)).getLast? with _ | last <;> rfl

end

end Table

end KeyedTable
