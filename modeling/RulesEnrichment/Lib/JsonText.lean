import RulesEnrichment.Lib.JsonObject

/-! # What a JSON text determines

    The text of a dictionary need not be parsed to compare parts of it.

    * `quote_cancel`: a string without escapes that stands at the end of a
      text is determined by the text, and so is what stands before it.
    * `dumps_eq_empty_iff`: only the empty object has the text of the
      empty object. -/

namespace Python

/-! ## Strings without escapes -/

/-- The string's literal has no escapes. -/
def plain (s : String) : Bool :=
  s.toList.all fun c => c.toNat ≠ 34 ∧ c.toNat ≠ 92 ∧ 32 ≤ c.toNat ∧ c.toNat ≤ 126

theorem plain_append (s t : String) : plain (s ++ t) = (plain s && plain t) := by
  simp [plain, List.all_append]

namespace PyVal

theorem escapeChar_of_plain {c : Char}
    (h : c.toNat ≠ 34 ∧ c.toNat ≠ 92 ∧ 32 ≤ c.toNat ∧ c.toNat ≤ 126) :
    escapeChar c = String.singleton c := by
  obtain ⟨hquote, hback, hlow, hhigh⟩ := h
  -- none of the control characters is printable
  have h10 : c.toNat ≠ 10 := by omega
  have h13 : c.toNat ≠ 13 := by omega
  have h9 : c.toNat ≠ 9 := by omega
  have h12 : c.toNat ≠ 12 := by omega
  have h8 : c.toNat ≠ 8 := by omega
  unfold escapeChar
  rw [if_neg hquote, if_neg hback, if_neg h10, if_neg h13, if_neg h9, if_neg h12, if_neg h8,
    if_pos ⟨hlow, hhigh⟩]

/-- The literal of a string without escapes. -/
theorem toList_quote_of_plain {s : String} (h : plain s = true) :
    (quote s).toList = '"' :: s.toList ++ ['"'] := by
  have hchars : (String.join (s.toList.map escapeChar)).toList = s.toList := by
    rw [String.toList_join, List.flatMap_map]
    have hsingle : ∀ c ∈ s.toList, (escapeChar c).toList = [c] := by
      intro c hc
      have hplain := List.all_eq_true.mp h c hc
      rw [escapeChar_of_plain (of_decide_eq_true hplain)]
      exact String.toList_singleton c
    rw [List.flatMap_congr hsingle]
    simp
  unfold quote
  rw [String.toList_append, String.toList_append, hchars]
  rfl

/-- A list determines what stands before and after its first `q`. -/
theorem append_cons_cancel {α : Type} {q : α} {x x' z z' : List α} (hx : q ∉ x) (hx' : q ∉ x')
    (h : x ++ q :: z = x' ++ q :: z') : x = x' ∧ z = z' := by
  induction x generalizing x' with
  | nil =>
    cases x' with
    | nil => exact ⟨rfl, (List.cons.inj h).2⟩
    | cons b x' =>
      obtain ⟨rfl, _⟩ := List.cons.inj h
      exact absurd List.mem_cons_self hx'
  | cons b x ih =>
    cases x' with
    | nil =>
      obtain ⟨rfl, _⟩ := List.cons.inj h
      exact absurd List.mem_cons_self hx
    | cons b' x' =>
      obtain ⟨rfl, hrest⟩ := List.cons.inj h
      obtain ⟨rfl, hz⟩ := ih (fun hm => hx (List.mem_cons_of_mem _ hm))
        (fun hm => hx' (List.mem_cons_of_mem _ hm)) hrest
      exact ⟨rfl, hz⟩

/-- **Cancelling a literal** at the end of a text. -/
theorem quote_cancel {a a' s s' rest : String} (hs : plain s = true) (hs' : plain s' = true)
    (h : a ++ quote s ++ rest = a' ++ quote s' ++ rest) : a = a' ∧ s = s' := by
  have hno : ∀ t : String, plain t = true → '"' ∉ t.toList := by
    intro t ht hmem
    have hchar := List.all_eq_true.mp ht _ hmem
    revert hchar
    decide
  have hlist := String.toList_inj.mpr h
  simp only [String.toList_append, toList_quote_of_plain hs, toList_quote_of_plain hs'] at hlist
  have hends := List.append_cancel_right hlist
  -- the closing quotes go, then the last quote of each side is the opening one
  rw [← List.append_assoc, ← List.append_assoc] at hends
  have hopen := List.append_cancel_right hends
  have hrev := congrArg List.reverse hopen
  simp only [List.reverse_append, List.reverse_cons, List.append_assoc, List.singleton_append]
    at hrev
  have hmem : '"' ∉ s.toList.reverse := by simpa using hno s hs
  have hmem' : '"' ∉ s'.toList.reverse := by simpa using hno s' hs'
  obtain ⟨htext, hbefore⟩ := append_cons_cancel hmem hmem' hrev
  exact ⟨String.toList_inj.mp (List.reverse_injective hbefore),
    String.toList_inj.mp (List.reverse_injective htext)⟩

/-! ## The empty object -/

/-- The text of an entry is not empty, and so the members' text is not. -/
theorem joinWith_ne_empty {t : String} (ht : t ≠ "") (sep : String) (ts : List String) :
    joinWith sep (t :: ts) ≠ "" := by
  cases ts with
  | nil => exact ht
  | cons u ts =>
    intro h
    have hlen := congrArg String.length h
    have hpos : t.length ≠ 0 := fun h0 => ht (String.length_eq_zero_iff.mp h0)
    simp only [joinWith, String.length_append] at hlen
    have hzero : ("" : String).length = 0 := rfl
    omega

theorem objectText_eq_empty_iff {ts : List (String × String)} :
    objectText ts = objectText [] ↔ ts = [] := by
  constructor
  · intro h
    by_contra hne
    unfold objectText at h
    have hlist := String.toList_inj.mpr h
    simp only [String.toList_append] at hlist
    have hinner := List.append_cancel_left (List.append_cancel_right hlist)
    cases hsorted : StableSort.sortBy Prod.fst ts with
    | nil =>
      have hlen := StableSort.length_sortBy Prod.fst ts
      rw [hsorted] at hlen
      exact hne (List.eq_nil_of_length_eq_zero hlen.symm)
    | cons p ps =>
      rw [hsorted] at hinner
      have hentry : quote p.1 ++ ":" ++ p.2 ≠ "" := by
        intro h0
        have hlen := congrArg String.length h0
        have hzero : ("" : String).length = 0 := rfl
        have hone : (":" : String).length = 1 := rfl
        simp only [String.length_append] at hlen
        omega
      exact joinWith_ne_empty hentry "," _ (String.toList_inj.mp hinner)
  · intro h
    rw [h]

end PyVal

/-- Only the empty object has its text. -/
theorem JsonObject.dumps_eq_empty_iff (o : JsonObject) :
    o.toVal.dumps = JsonObject.empty.toVal.dumps ↔ o.entries = [] := by
  constructor
  · intro h
    obtain ⟨ts, hts⟩ := PyVal.dumpsFields_ok_of_wf o.entries o.wfFields
    have htext : PyVal.objectText ts = PyVal.objectText [] := by
      simpa [JsonObject.toVal, JsonObject.empty, PyVal.dumps, PyVal.dumpsFields, hts,
        Except.map] using h
    have hkeys := PyVal.dumpsFields_keys hts
    rw [PyVal.objectText_eq_empty_iff.mp htext] at hkeys
    exact List.map_eq_nil_iff.mp hkeys.symm
  · intro h
    unfold JsonObject.toVal
    rw [h]
    rfl

end Python
