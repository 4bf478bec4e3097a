import RulesEnrichment.Lib.PyVal

/-! # Dictionaries that are JSON values

    `JsonObject` is a Python dictionary that is a JSON value: its keys are
    distinct and so are those of every dictionary in it, and nothing in it
    is foreign to JSON. `update` is `dict.update`: it overwrites the value
    of a key in place and appends a new key.

    Dictionaries are compared by what they look up (`same_dict_iff`), and
    `lookup_update` says what an updated dictionary looks up. -/

namespace Python

namespace PyVal

/-! ## Comparing dictionaries by lookup -/

theorem lookup_eq_none_iff {es : List (String × PyVal)} {k : String} :
    es.lookup k = none ↔ k ∉ es.map Prod.fst := by
  induction es with
  | nil => simp
  | cons e es ih =>
    obtain ⟨k', v'⟩ := e
    rw [List.lookup_cons]
    by_cases h : k = k'
    · simp [h]
    · have hne : (k == k') = false := by simpa using h
      simp [hne, ih, h]

theorem mem_of_lookup {es : List (String × PyVal)} {k : String} {v : PyVal}
    (h : es.lookup k = some v) : (k, v) ∈ es := by
  induction es with
  | nil => simp at h
  | cons e es ih =>
    obtain ⟨k', v'⟩ := e
    rw [List.lookup_cons] at h
    by_cases hk : k = k'
    · simp only [hk, beq_self_eq_true, Option.some.injEq] at h
      simp [hk, h]
    · have hne : (k == k') = false := by simpa using hk
      rw [hne] at h
      exact List.mem_cons_of_mem _ (ih h)

/-- With distinct keys a dictionary looks up what it holds. -/
theorem lookup_of_mem {es : List (String × PyVal)} (hn : (es.map Prod.fst).Nodup)
    {k : String} {v : PyVal} (h : (k, v) ∈ es) : es.lookup k = some v := by
  cases hl : es.lookup k with
  | none =>
    exact absurd (List.mem_map.mpr ⟨(k, v), h, rfl⟩) (lookup_eq_none_iff.mp hl)
  | some w =>
    have heq : (k, w) = (k, v) :=
      List.inj_on_of_nodup_map hn (mem_of_lookup hl) h rfl
    cases heq
    rfl

/-- Two lookups that found the same: nothing, or values that are `same`. -/
def sameOption : Option PyVal → Option PyVal → Bool
  | none, none => true
  | some v, some w => same v w
  | _, _ => false

theorem sameFields_iff {es fs : List (String × PyVal)} :
    sameFields es fs = true ↔
      ∀ p ∈ es, ∃ v', fs.lookup p.1 = some v' ∧ same p.2 v' = true := by
  induction es with
  | nil => simp [sameFields]
  | cons e es ih =>
    obtain ⟨k, v⟩ := e
    simp only [sameFields, Bool.and_eq_true, ih, List.mem_cons, forall_eq_or_imp]
    cases fs.lookup k <;> simp

/-- **Dictionaries are the same JSON value exactly when they look up the
    same under every key.** -/
theorem same_dict_iff {es fs : List (String × PyVal)} (hes : (es.map Prod.fst).Nodup)
    (hfs : (fs.map Prod.fst).Nodup) :
    same (.dict es) (.dict fs) = true ↔
      ∀ k, sameOption (es.lookup k) (fs.lookup k) = true := by
  simp only [same, Bool.and_eq_true, beq_iff_eq, sameFields_iff]
  constructor
  · intro h k
    obtain ⟨hlen, hall⟩ := h
    -- by size, the keys of `fs` are no more than those of `es`
    have hsub : es.map Prod.fst ⊆ fs.map Prod.fst := by
      intro k' hk'
      obtain ⟨p, hp, rfl⟩ := List.mem_map.mp hk'
      obtain ⟨v', hv', _⟩ := hall p hp
      exact List.mem_map.mpr ⟨_, mem_of_lookup hv', rfl⟩
    have hperm : (es.map Prod.fst).Perm (fs.map Prod.fst) :=
      (List.subperm_of_subset hes hsub).perm_of_length_le (by simp [hlen])
    cases hl : es.lookup k with
    | some v =>
      obtain ⟨v', hv', hsame⟩ := hall _ (mem_of_lookup hl)
      simp only [hv', sameOption]
      exact hsame
    | none =>
      have hk : k ∉ fs.map Prod.fst := fun h =>
        lookup_eq_none_iff.mp hl (hperm.mem_iff.mpr h)
      rw [lookup_eq_none_iff.mpr hk]
      rfl
  · intro h
    -- equal lookups give equal key sets, hence equal sizes
    have hkeys : ∀ k, k ∈ es.map Prod.fst ↔ k ∈ fs.map Prod.fst := by
      intro k
      have hk := h k
      rw [← not_iff_not, ← lookup_eq_none_iff, ← lookup_eq_none_iff]
      revert hk
      cases es.lookup k <;> cases fs.lookup k <;> simp [sameOption]
    have hperm : (es.map Prod.fst).Perm (fs.map Prod.fst) :=
      (List.perm_ext_iff_of_nodup hes hfs).mpr hkeys
    refine ⟨by simpa using hperm.length_eq, ?_⟩
    intro p hp
    obtain ⟨k, v⟩ := p
    have hk := h k
    rw [lookup_of_mem hes hp] at hk
    cases hl : fs.lookup k with
    | none => simp [hl, sameOption] at hk
    | some v' =>
      simp only [hl, sameOption] at hk
      exact ⟨v', rfl, hk⟩

/-! ## Overwriting update -/

/-- `d[k] = v`: overwrite in place, or append a new key. -/
def setKey (k : String) (v : PyVal) : List (String × PyVal) → List (String × PyVal)
  | [] => [(k, v)]
  | (k', v') :: es => if k' = k then (k, v) :: es else (k', v') :: setKey k v es

/-- `d.update(fs)`. -/
def updateFields : List (String × PyVal) → List (String × PyVal) → List (String × PyVal)
  | es, [] => es
  | es, (k, v) :: fs => updateFields (setKey k v es) fs

theorem lookup_setKey (k : String) (v : PyVal) (es : List (String × PyVal)) (k' : String) :
    (setKey k v es).lookup k' = if k' = k then some v else es.lookup k' := by
  induction es with
  | nil =>
    by_cases h : k' = k
    · simp [setKey, h]
    · have hne : (k' == k) = false := by simpa using h
      simp [setKey, List.lookup_cons, h, hne]
  | cons e es ih =>
    obtain ⟨k₁, v₁⟩ := e
    unfold setKey
    by_cases h₁ : k₁ = k
    · rw [if_pos h₁]
      by_cases h : k' = k
      · simp [h]
      · have hne : (k' == k) = false := by simpa using h
        simp [List.lookup_cons, h, h₁, hne]
    · rw [if_neg h₁, List.lookup_cons, List.lookup_cons, ih]
      by_cases h : k' = k
      · have hne : (k == k₁) = false := by simpa using fun h' => h₁ h'.symm
        simp [h, hne]
      · simp [h]

theorem mem_keys_setKey (k : String) (v : PyVal) (es : List (String × PyVal)) (k' : String) :
    k' ∈ (setKey k v es).map Prod.fst ↔ k' = k ∨ k' ∈ es.map Prod.fst := by
  rw [← not_iff_not, ← lookup_eq_none_iff, lookup_setKey, not_or, ← lookup_eq_none_iff]
  by_cases h : k' = k <;> simp [h]

theorem nodup_setKey (k : String) (v : PyVal) {es : List (String × PyVal)}
    (h : (es.map Prod.fst).Nodup) : ((setKey k v es).map Prod.fst).Nodup := by
  induction es with
  | nil => simp [setKey]
  | cons e es ih =>
    obtain ⟨k₁, v₁⟩ := e
    obtain ⟨hnot, hn⟩ := List.nodup_cons.mp h
    unfold setKey
    by_cases h₁ : k₁ = k
    · rw [if_pos h₁, ← h₁]
      exact List.nodup_cons.mpr ⟨hnot, hn⟩
    · rw [if_neg h₁]
      refine List.nodup_cons.mpr ⟨?_, ih hn⟩
      rw [mem_keys_setKey]
      exact fun hor => hor.elim h₁ hnot

theorem wfFields_setKey {k : String} {v : PyVal} {es : List (String × PyVal)}
    (hv : wf v = true) (hes : wfFields es = true) : wfFields (setKey k v es) = true := by
  induction es with
  | nil => simp [setKey, wfFields, hv]
  | cons e es ih =>
    obtain ⟨k₁, v₁⟩ := e
    simp only [wfFields, Bool.and_eq_true] at hes
    unfold setKey
    split
    · simp [wfFields, hv, hes.2]
    · simp [wfFields, hes.1, ih hes.2]

theorem lookup_updateFields {es fs : List (String × PyVal)} (hn : (fs.map Prod.fst).Nodup)
    (k : String) : (updateFields es fs).lookup k = (fs.lookup k).or (es.lookup k) := by
  induction fs generalizing es with
  | nil => rfl
  | cons f fs ih =>
    obtain ⟨k₁, v₁⟩ := f
    obtain ⟨hnot, hn'⟩ := List.nodup_cons.mp hn
    rw [updateFields, ih hn', lookup_setKey, List.lookup_cons]
    by_cases h : k = k₁
    · -- the key occurs once in `fs`, so nothing later overwrites it
      subst h
      have hnone : fs.lookup k = none := lookup_eq_none_iff.mpr hnot
      simp [hnone]
    · have hne : (k == k₁) = false := by simpa using h
      simp [h, hne]

theorem wf_updateFields {es fs : List (String × PyVal)} (hes : wf (.dict es) = true)
    (hfs : wfFields fs = true) : wf (.dict (updateFields es fs)) = true := by
  -- on the updating entries; each is set in a dictionary that is JSON again
  induction fs generalizing es with
  | nil => exact hes
  | cons f fs ih =>
    obtain ⟨k, v⟩ := f
    simp only [wfFields, Bool.and_eq_true] at hfs
    refine ih ?_ hfs.2
    simp only [wf, Bool.and_eq_true, decide_eq_true_eq] at hes ⊢
    exact ⟨nodup_setKey k v hes.1, wfFields_setKey hfs.1 hes.2⟩

end PyVal

/-! ## JSON objects -/

/-- A dictionary that is a JSON value. -/
structure JsonObject where
  entries : List (String × PyVal)
  wf : (PyVal.dict entries).wf = true := by decide

namespace JsonObject

def toVal (o : JsonObject) : PyVal := .dict o.entries

/-- `d.get(k)`, with absence told apart from `None`. -/
def lookup (o : JsonObject) (k : String) : Option PyVal := o.entries.lookup k

def empty : JsonObject := ⟨[], rfl⟩

theorem nodup (o : JsonObject) : (o.entries.map Prod.fst).Nodup := by
  have h := o.wf
  simp only [PyVal.wf, Bool.and_eq_true, decide_eq_true_eq] at h
  exact h.1

theorem wfFields (o : JsonObject) : PyVal.wfFields o.entries = true := by
  have h := o.wf
  simp only [PyVal.wf, Bool.and_eq_true] at h
  exact h.2

/-- `d.update(o)` -/
def update (d o : JsonObject) : JsonObject where
  entries := PyVal.updateFields d.entries o.entries
  wf := PyVal.wf_updateFields d.wf o.wfFields

/-- The same JSON object, whatever the order of keys. -/
def same (o p : JsonObject) : Bool := PyVal.same o.toVal p.toVal

@[simp] theorem lookup_empty (k : String) : empty.lookup k = none := rfl

@[simp] theorem lookup_update (d o : JsonObject) (k : String) :
    (d.update o).lookup k = (o.lookup k).or (d.lookup k) :=
  PyVal.lookup_updateFields o.nodup k

theorem same_iff (o p : JsonObject) :
    o.same p = true ↔ ∀ k, PyVal.sameOption (o.lookup k) (p.lookup k) = true :=
  PyVal.same_dict_iff o.nodup p.nodup

/-- One text for one object. -/
theorem dumps_eq_of_same {o p : JsonObject} (h : o.same p = true) :
    o.toVal.dumps = p.toVal.dumps :=
  PyVal.dumps_eq_of_same o.toVal p.toVal o.wf p.wf h

theorem dumps_ok (o : JsonObject) : ∃ t, o.toVal.dumps = .ok t :=
  PyVal.dumps_ok_of_wf o.toVal o.wf

end JsonObject

end Python
