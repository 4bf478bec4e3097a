import Mathlib.Data.List.Sort

/-! # Stable sorting by a key

    `sortBy key l` is `l` in ascending order of `key`, elements of equal
    key keeping the order they have in `l`. This is what a stable library
    sort and an `ORDER BY` over one fixed scan order both compute.

    * `filter_sortBy`: sorting commutes with filtering; this is stability,
      read off from the elements of one key.
    * `sortBy_eq_of_perm`: with pairwise distinct keys the result depends
      on the elements alone.
    * `sortBy_snoc_max`: an element whose key is maximal and that stands
      last comes out last.
    * `StablySorted.eq_sortBy`: `sortBy` is the only stable sort.
    * `le_of_mem_take_sortBy`: what a limit leaves out is not smaller than
      what it takes. -/

namespace StableSort

universe u v

variable {α : Type u} {β : Type v} [LinearOrder β]

/-- `l` in ascending order of `key`, ties in their old order. -/
def sortBy (key : α → β) (l : List α) : List α :=
  l.insertionSort (fun a b => key a ≤ key b)

variable (key : α → β)

instance total_key : Std.Total (fun a b : α => key a ≤ key b) := ⟨fun a b => le_total (key a) (key b)⟩

instance isTrans_key : IsTrans α (fun a b : α => key a ≤ key b) := ⟨fun _ _ _ => le_trans⟩

@[simp] theorem sortBy_nil : sortBy key [] = [] := rfl

theorem sortBy_cons (a : α) (l : List α) :
    sortBy key (a :: l) = (sortBy key l).orderedInsert (fun a b => key a ≤ key b) a := rfl

theorem sortBy_perm (l : List α) : (sortBy key l).Perm l :=
  List.perm_insertionSort _ l

theorem sortBy_pairwise (l : List α) :
    (sortBy key l).Pairwise (fun a b => key a ≤ key b) :=
  List.pairwise_insertionSort _ l

@[simp] theorem mem_sortBy {a : α} {l : List α} : a ∈ sortBy key l ↔ a ∈ l :=
  (sortBy_perm key l).mem_iff

@[simp] theorem length_sortBy (l : List α) : (sortBy key l).length = l.length :=
  (sortBy_perm key l).length_eq

/-- A list that is mapped is sorted by the keys of its images. -/
theorem sortBy_map {γ : Type u} (f : γ → α) (l : List γ) :
    sortBy key (l.map f) = (sortBy (key ∘ f) l).map f :=
  (List.map_insertionSort _ _ f l fun _ _ _ _ => Iff.rfl).symm

/-! ## Stability -/

/-- Filtering commutes with inserting into an ordered list. -/
theorem filter_orderedInsert (p : α → Bool) (a : α) {l : List α}
    (hl : l.Pairwise (fun a b => key a ≤ key b)) :
    (l.orderedInsert (fun a b => key a ≤ key b) a).filter p =
      if p a then (l.filter p).orderedInsert (fun a b => key a ≤ key b) a
      else l.filter p := by
  induction l with
  | nil => by_cases hpa : p a <;> simp [hpa]
  | cons b l ih =>
    obtain ⟨hb, hl'⟩ := List.pairwise_cons.mp hl
    by_cases hab : key a ≤ key b
    · -- `a` goes in front of everything, and so it does in the filtered list
      rw [List.orderedInsert_cons_of_le _ l hab]
      have hall : ∀ c ∈ (b :: l).filter p, key a ≤ key c := by
        intro c hc
        rcases List.mem_cons.mp (List.mem_filter.mp hc).1 with rfl | hcl
        · exact hab
        · exact le_trans hab (hb c hcl)
      by_cases hpa : p a
      · rw [List.filter_cons_of_pos hpa, if_pos hpa]
        cases hf : (b :: l).filter p with
        | nil => rfl
        | cons c cs =>
          rw [List.orderedInsert_cons_of_le]
          exact hall c (by rw [hf]; exact List.mem_cons_self)
      · rw [List.filter_cons_of_neg hpa, if_neg hpa]
    · -- `a` goes behind `b`, whether or not the filter keeps `b`
      rw [List.orderedInsert_of_not_le _ l hab]
      by_cases hpb : p b
      · rw [List.filter_cons_of_pos hpb, List.filter_cons_of_pos hpb, ih hl']
        by_cases hpa : p a
        · simp [hpa, hab]
        · simp [hpa]
      · rw [List.filter_cons_of_neg hpb, List.filter_cons_of_neg hpb, ih hl']

/-- **Stability**: sorting commutes with filtering. -/
theorem filter_sortBy (p : α → Bool) (l : List α) :
    (sortBy key l).filter p = sortBy key (l.filter p) := by
  induction l with
  | nil => rfl
  | cons a l ih =>
    rw [sortBy_cons, filter_orderedInsert key p a (sortBy_pairwise key l), ih]
    by_cases hpa : p a
    · rw [if_pos hpa, List.filter_cons_of_pos hpa, sortBy_cons]
    · rw [if_neg hpa, List.filter_cons_of_neg hpa]

/-- With pairwise distinct keys the order of the input does not matter. -/
theorem sortBy_eq_of_perm {l l' : List α} (hp : l.Perm l') (hn : (l.map key).Nodup) :
    sortBy key l = sortBy key l' := by
  -- two sorted permutations of one list; distinct keys leave one of them
  have hperm : (sortBy key l).Perm (sortBy key l') :=
    ((sortBy_perm key l).trans hp).trans (sortBy_perm key l').symm
  apply hperm.eq_of_pairwise _ (sortBy_pairwise key l) (sortBy_pairwise key l')
  intro a b ha hb hab hba
  have ha' : a ∈ l := (mem_sortBy key).mp ha
  have hb' : b ∈ l := hp.mem_iff.mpr ((mem_sortBy key).mp hb)
  exact List.inj_on_of_nodup_map hn ha' hb' (le_antisymm hab hba)

/-- An element that stands last and whose key nothing exceeds comes out last. -/
theorem sortBy_snoc_max (l : List α) (a : α) (h : ∀ b ∈ l, key b ≤ key a) :
    sortBy key (l ++ [a]) = sortBy key l ++ [a] := by
  induction l with
  | nil => rfl
  | cons b l ih =>
    have hl : ∀ c ∈ l, key c ≤ key a := fun c hc => h c (List.mem_cons_of_mem _ hc)
    rw [List.cons_append, sortBy_cons, ih hl, sortBy_cons]
    have hba : key b ≤ key a := h b List.mem_cons_self
    -- `b` is inserted before `a`, into whatever the sorted tail is
    generalize sortBy key l = s
    induction s with
    | nil => simp [hba]
    | cons c s ihs =>
      by_cases hbc : key b ≤ key c
      · simp [hbc]
      · simp [hbc, ihs]

/-! ## What a stable sort is -/

/-- `l'` is in ascending order of `key`, and has the elements of each key
    as `l` has them. -/
structure StablySorted (l' l : List α) : Prop where
  ascending : l'.Pairwise fun a b => key a ≤ key b
  stable : ∀ k, l'.filter (fun a => decide (key a = k)) = l.filter (fun a => decide (key a = k))

theorem stablySorted_sortBy (l : List α) : StablySorted key (sortBy key l) l where
  ascending := sortBy_pairwise key l
  stable k := by
    -- the elements of one key are in order as they stand
    rw [filter_sortBy]
    refine List.Pairwise.insertionSort_eq ?_
    refine List.pairwise_of_forall_mem_list ?_
    intro a ha b hb
    have hka := of_decide_eq_true (List.mem_filter.mp ha).2
    have hkb := of_decide_eq_true (List.mem_filter.mp hb).2
    rw [hka, hkb]

variable {key}

theorem StablySorted.mem_iff {l l' : List α} (h : StablySorted key l' l) {a : α} :
    a ∈ l' ↔ a ∈ l := by
  have hmem : ∀ l : List α, a ∈ l.filter (fun b => decide (key b = key a)) ↔ a ∈ l := by
    intro l
    simp
  rw [← hmem l', h.stable, hmem l]

/-- Two stable sorts of one list are the same. -/
theorem StablySorted.unique {l l₁ l₂ : List α} (h₁ : StablySorted key l₁ l)
    (h₂ : StablySorted key l₂ l) : l₁ = l₂ := by
  -- on the first sort; both start with the first element of the least key
  induction l₁ generalizing l l₂ with
  | nil =>
    refine (List.eq_nil_iff_forall_not_mem.mpr ?_).symm
    intro a ha
    exact absurd (h₁.mem_iff.mpr (h₂.mem_iff.mp ha)) List.not_mem_nil
  | cons a l₁ ih =>
    match l₂ with
    | [] => exact absurd (h₂.mem_iff.mpr (h₁.mem_iff.mp List.mem_cons_self)) List.not_mem_nil
    | b :: l₂ =>
      obtain ⟨ha, hasc₁⟩ := List.pairwise_cons.mp h₁.ascending
      obtain ⟨hb, hasc₂⟩ := List.pairwise_cons.mp h₂.ascending
      have hle : key a ≤ key b := by
        rcases List.mem_cons.mp (h₁.mem_iff.mpr (h₂.mem_iff.mp List.mem_cons_self)) with rfl | hin
        · exact le_refl _
        · exact ha b hin
      have hge : key b ≤ key a := by
        rcases List.mem_cons.mp (h₂.mem_iff.mpr (h₁.mem_iff.mp List.mem_cons_self)) with rfl | hin
        · exact le_refl _
        · exact hb a hin
      have hsame : ∀ k, (a :: l₁).filter (fun c => decide (key c = k)) =
          (b :: l₂).filter (fun c => decide (key c = k)) :=
        fun k => (h₁.stable k).trans (h₂.stable k).symm
      have hkey : key a = key b := le_antisymm hle hge
      -- the elements of that key stand in the same order in both
      have hhead := hsame (key a)
      rw [List.filter_cons_of_pos (by simp), List.filter_cons_of_pos (by simp [hkey])] at hhead
      obtain ⟨rfl, _⟩ := List.cons.inj hhead
      have htail : ∀ k, l₁.filter (fun c => decide (key c = k)) =
          l₂.filter (fun c => decide (key c = k)) := by
        intro k
        have hk := hsame k
        by_cases hak : key a = k
        · rw [List.filter_cons_of_pos (by simp [hak]), List.filter_cons_of_pos (by simp [hak])] at hk
          exact (List.cons.inj hk).2
        · rwa [List.filter_cons_of_neg (by simp [hak]), List.filter_cons_of_neg (by simp [hak])] at hk
      rw [ih ⟨hasc₁, htail⟩ ⟨hasc₂, fun _ => rfl⟩]

theorem StablySorted.eq_sortBy {l l' : List α} (h : StablySorted key l' l) : l' = sortBy key l :=
  h.unique (stablySorted_sortBy key l)

/-- Sorting what is sorted changes nothing. -/
theorem sortBy_sortBy (l : List α) : sortBy key (sortBy key l) = sortBy key l := by
  have hself : StablySorted key (sortBy key l) (sortBy key l) :=
    ⟨sortBy_pairwise key l, fun _ => rfl⟩
  exact hself.eq_sortBy.symm

variable (key)

/-! ## A limit -/

/-- What the first `n` leave out has no smaller key than any of them. -/
theorem le_of_mem_take_sortBy {n : ℕ} {l : List α} {a b : α} (ha : a ∈ (sortBy key l).take n)
    (hb : b ∈ l) (hnot : b ∉ (sortBy key l).take n) : key a ≤ key b := by
  have hsorted := sortBy_pairwise key l
  rw [← List.take_append_drop n (sortBy key l)] at hsorted
  have hmem : b ∈ (sortBy key l).take n ++ (sortBy key l).drop n := by
    rw [List.take_append_drop, mem_sortBy]
    exact hb
  rcases List.mem_append.mp hmem with hin | hin
  · exact absurd hin hnot
  · exact (List.pairwise_append.mp hsorted).2.2 a ha b hin

end StableSort
