import RulesEnrichment.Lib.StableSort
import Mathlib.Data.String.Basic
import Mathlib.Data.List.Nodup

/-! # Python values and their JSON text

    The values a Python program passes around when it works with decoded
    JSON: `None`, booleans, integers, floats, strings, lists and
    dictionaries, and beside them `foreign` objects that JSON cannot
    express. A string is one of characters, without surrogates.

    * `wf`: a JSON value, that is, no foreign object in it and the keys of
      each dictionary distinct (as they are in every Python dictionary).
    * `same`: the same JSON value up to the order of dictionary keys at
      every depth.
    * `dumps`: `json.dumps(v, sort_keys=True, separators=(",", ":"))`, for
      integers of at most 4300 digits; a longer one raises `ValueError`.
    * `dumps_eq_of_same`: the text does not depend on the order of keys. -/

namespace Python

/-! ## Values -/

/-- A finite float: the text `repr` prints for it and its exact value as a
    fraction. -/
structure PyFloat where
  text : String
  num : Int
  den : Nat := 1
  den_pos : 0 < den := by decide
  deriving DecidableEq

inductive PyVal where
  /-- `None` -/
  | null
  | bool (b : Bool)
  | int (i : Int)
  | float (f : PyFloat)
  | str (s : String)
  | list (xs : List PyVal)
  | dict (es : List (String × PyVal))
  /-- An object of a type that JSON has no form for, with the text `str`
      prints for it. -/
  | foreign (typeName text : String)

namespace PyVal

instance : Inhabited PyVal := ⟨.null⟩

mutual

/-- A JSON value: no foreign object, and distinct keys in each dictionary. -/
def wf : PyVal → Bool
  | .list xs => wfList xs
  | .dict es => decide (es.map Prod.fst).Nodup && wfFields es
  | .foreign _ _ => false
  | _ => true

def wfList : List PyVal → Bool
  | [] => true
  | x :: xs => wf x && wfList xs

def wfFields : List (String × PyVal) → Bool
  | [] => true
  | (_, v) :: es => wf v && wfFields es

end

mutual

/-- The same JSON value up to the order of dictionary keys at every depth. -/
def same : PyVal → PyVal → Bool
  | .null, .null => true
  | .bool a, .bool b => a == b
  | .int a, .int b => a == b
  | .float a, .float b => a == b
  | .str a, .str b => a == b
  | .list xs, .list ys => sameList xs ys
  | .dict es, .dict fs => es.length == fs.length && sameFields es fs
  | .foreign t a, .foreign u b => t == u && a == b
  | _, _ => false

def sameList : List PyVal → List PyVal → Bool
  | [], [] => true
  | x :: xs, y :: ys => same x y && sameList xs ys
  | _, _ => false

/-- Every entry of the first dictionary is in the second. -/
def sameFields : List (String × PyVal) → List (String × PyVal) → Bool
  | [], _ => true
  | (k, v) :: es, fs =>
    (match fs.lookup k with
      | some v' => same v v'
      | none => false) && sameFields es fs

end

/-! ## JSON text -/

/-- The four hexadecimal digits of a UTF-16 code unit. -/
def hex4 (n : Nat) : String :=
  String.ofList [Nat.digitChar (n / 4096 % 16), Nat.digitChar (n / 256 % 16),
    Nat.digitChar (n / 16 % 16), Nat.digitChar (n % 16)]

/-- `json.dumps` escapes everything outside the printable ASCII range, and
    writes a character beyond the basic plane as a surrogate pair. -/
def escapeChar (c : Char) : String :=
  if c.toNat = 34 then "\\\""
  else if c.toNat = 92 then "\\\\"
  else if c.toNat = 10 then "\\n"
  else if c.toNat = 13 then "\\r"
  else if c.toNat = 9 then "\\t"
  else if c.toNat = 12 then "\\f"
  else if c.toNat = 8 then "\\b"
  else if 32 ≤ c.toNat ∧ c.toNat ≤ 126 then String.singleton c
  else if c.toNat < 65536 then "\\u" ++ hex4 c.toNat
  else "\\u" ++ hex4 (55296 + (c.toNat - 65536) / 1024) ++
    "\\u" ++ hex4 (56320 + (c.toNat - 65536) % 1024)

/-- A string literal of the JSON text. -/
def quote (s : String) : String :=
  "\"" ++ String.join (s.toList.map escapeChar) ++ "\""

/-- The texts with `sep` between them. -/
def joinWith (sep : String) : List String → String
  | [] => ""
  | [t] => t
  | t :: u :: ts => t ++ sep ++ joinWith sep (u :: ts)

/-- A dictionary's text from the keys and the texts of its values. -/
def objectText (fields : List (String × String)) : String :=
  "\x7b" ++
    joinWith "," ((StableSort.sortBy Prod.fst fields).map fun p => quote p.1 ++ ":" ++ p.2) ++
    "\x7d"

mutual

/-- `json.dumps(v, sort_keys=True, separators=(",", ":"))`. The error is
    the type name of an object that is not JSON serializable. Integers are
    those that the interpreter converts to a text. -/
def dumps : PyVal → Except String String
  | .null => .ok "null"
  | .bool true => .ok "true"
  | .bool false => .ok "false"
  | .int i => .ok (toString i)
  | .float f => .ok f.text
  | .str s => .ok (quote s)
  | .list xs => (dumpsList xs).map fun ts => "[" ++ joinWith "," ts ++ "]"
  | .dict es => (dumpsFields es).map objectText
  | .foreign t _ => .error t

def dumpsList : List PyVal → Except String (List String)
  | [] => .ok []
  | x :: xs =>
    match dumps x with
    | .error t => .error t
    | .ok t => (dumpsList xs).map (t :: ·)

def dumpsFields : List (String × PyVal) → Except String (List (String × String))
  | [] => .ok []
  | (k, v) :: es =>
    match dumps v with
    | .error t => .error t
    | .ok t => (dumpsFields es).map ((k, t) :: ·)

end

/-! ## The text of a JSON value -/

theorem dumpsFields_keys {es : List (String × PyVal)} {ts : List (String × String)}
    (h : dumpsFields es = .ok ts) : ts.map Prod.fst = es.map Prod.fst := by
  induction es generalizing ts with
  | nil => cases h; rfl
  | cons e es ih =>
    obtain ⟨k, v⟩ := e
    simp only [dumpsFields] at h
    cases hv : dumps v with
    | error t => simp [hv] at h
    | ok t =>
      cases hes : dumpsFields es with
      | error u => simp [hv, hes, Except.map] at h
      | ok us =>
        simp only [hv, hes, Except.map, Except.ok.injEq] at h
        subst h
        simp [ih hes]

/-- The text of an entry that a dictionary looks up is among its texts. -/
theorem mem_dumpsFields {es : List (String × PyVal)} {ts : List (String × String)}
    (h : dumpsFields es = .ok ts) {k t : String} {v : PyVal}
    (hk : es.lookup k = some v) (hv : dumps v = .ok t) : (k, t) ∈ ts := by
  induction es generalizing ts with
  | nil => simp at hk
  | cons e es ih =>
    obtain ⟨k', v'⟩ := e
    simp only [dumpsFields] at h
    cases hv' : dumps v' with
    | error u => simp [hv'] at h
    | ok t' =>
      cases hes : dumpsFields es with
      | error u => simp [hv', hes, Except.map] at h
      | ok us =>
        simp only [hv', hes, Except.map, Except.ok.injEq] at h
        subst h
        by_cases hkk : k = k'
        · -- the first entry of the key is the one that is looked up
          subst hkk
          simp only [List.lookup_cons_self, Option.some.injEq] at hk
          subst hk
          rw [hv] at hv'
          cases hv'
          exact List.mem_cons_self
        · have hne : (k == k') = false := by simpa using hkk
          rw [List.lookup_cons, hne] at hk
          exact List.mem_cons_of_mem _ (ih hes hk)

theorem wf_of_lookup {es : List (String × PyVal)} {k : String} {v : PyVal}
    (h : wfFields es = true) (hk : es.lookup k = some v) : wf v = true := by
  induction es with
  | nil => simp at hk
  | cons e es ih =>
    obtain ⟨k', v'⟩ := e
    simp only [wfFields, Bool.and_eq_true] at h
    rw [List.lookup_cons] at hk
    split at hk
    · cases hk; exact h.1
    · exact ih h.2 hk

mutual

/-- A JSON value always has a text. -/
theorem dumps_ok_of_wf : ∀ v : PyVal, wf v = true → ∃ t, dumps v = .ok t
  | .null, _ => ⟨_, rfl⟩
  | .bool true, _ => ⟨_, rfl⟩
  | .bool false, _ => ⟨_, rfl⟩
  | .int _, _ => ⟨_, rfl⟩
  | .float _, _ => ⟨_, rfl⟩
  | .str _, _ => ⟨_, rfl⟩
  | .list xs, h => by
    obtain ⟨ts, hts⟩ := dumpsList_ok_of_wf xs h
    exact ⟨_, by rw [dumps, hts]; rfl⟩
  | .dict es, h => by
    simp only [wf, Bool.and_eq_true] at h
    obtain ⟨ts, hts⟩ := dumpsFields_ok_of_wf es h.2
    exact ⟨_, by rw [dumps, hts]; rfl⟩
  | .foreign _ _, h => by cases h

theorem dumpsList_ok_of_wf : ∀ xs : List PyVal, wfList xs = true → ∃ ts, dumpsList xs = .ok ts
  | [], _ => ⟨_, rfl⟩
  | x :: xs, h => by
    simp only [wfList, Bool.and_eq_true] at h
    obtain ⟨t, ht⟩ := dumps_ok_of_wf x h.1
    obtain ⟨ts, hts⟩ := dumpsList_ok_of_wf xs h.2
    exact ⟨t :: ts, by rw [dumpsList, ht, hts]; rfl⟩

theorem dumpsFields_ok_of_wf : ∀ es : List (String × PyVal), wfFields es = true →
    ∃ ts, dumpsFields es = .ok ts
  | [], _ => ⟨_, rfl⟩
  | (k, v) :: es, h => by
    simp only [wfFields, Bool.and_eq_true] at h
    obtain ⟨t, ht⟩ := dumps_ok_of_wf v h.1
    obtain ⟨ts, hts⟩ := dumpsFields_ok_of_wf es h.2
    exact ⟨(k, t) :: ts, by rw [dumpsFields, ht, hts]; rfl⟩

end

/-- The texts of a dictionary whose entries all recur in another of the
    same size are, up to order, the texts of the other. -/
theorem objectText_eq_of_subset {es fs : List (String × PyVal)}
    {ts us : List (String × String)} (hes : (es.map Prod.fst).Nodup)
    (hts : dumpsFields es = .ok ts) (hus : dumpsFields fs = .ok us)
    (hlen : es.length = fs.length) (hsub : ts ⊆ us) : objectText ts = objectText us := by
  -- the texts carry the keys of their entries
  have hkeys : (ts.map Prod.fst).Nodup := by rw [dumpsFields_keys hts]; exact hes
  have hnodup : ts.Nodup := List.Nodup.of_map _ hkeys
  have hlenT : ts.length = es.length := by
    simpa using congrArg List.length (dumpsFields_keys hts)
  have hlenU : us.length = fs.length := by
    simpa using congrArg List.length (dumpsFields_keys hus)
  have hperm : ts.Perm us :=
    (List.subperm_of_subset hnodup hsub).perm_of_length_le (by omega)
  unfold objectText
  rw [StableSort.sortBy_eq_of_perm Prod.fst hperm hkeys]

mutual

/-- **Canonical text**: two JSON values that differ in the order of keys
    only have one text. -/
theorem dumps_eq_of_same : ∀ v w : PyVal, wf v = true → wf w = true → same v w = true →
    dumps v = dumps w
  | .null, w, _, _, h => by cases w <;> simp_all [same]
  | .bool a, w, _, _, h => by cases w <;> simp_all [same]
  | .int a, w, _, _, h => by cases w <;> simp_all [same]
  | .float a, w, _, _, h => by cases w <;> simp_all [same]
  | .str a, w, _, _, h => by cases w <;> simp_all [same]
  | .foreign _ _, _, h, _, _ => by cases h
  | .list xs, w, hv, hw, h => by
    cases w with
    | list ys =>
      rw [dumps, dumps, dumpsList_eq_of_same xs ys hv hw h]
    | _ => simp [same] at h
  | .dict es, w, hv, hw, h => by
    cases w with
    | dict fs =>
      simp only [same, Bool.and_eq_true, beq_iff_eq] at h
      simp only [wf, Bool.and_eq_true, decide_eq_true_eq] at hv hw
      obtain ⟨ts, hts⟩ := dumpsFields_ok_of_wf es hv.2
      obtain ⟨us, hus⟩ := dumpsFields_ok_of_wf fs hw.2
      -- inclusion is enough: the keys are distinct and the sizes equal
      have hsub : ts ⊆ us := by
        intro p hp
        obtain ⟨k, t⟩ := p
        obtain ⟨v', hlook, hdump⟩ :=
          dumpsFields_lookup_of_same es fs hv.2 hw.2 h.2 hts k t hp
        exact mem_dumpsFields hus hlook hdump
      rw [dumps, dumps, hts, hus]
      simp only [Except.map, Except.ok.injEq]
      exact objectText_eq_of_subset hv.1 hts hus h.1 hsub
    | _ => simp [same] at h

theorem dumpsList_eq_of_same : ∀ xs ys : List PyVal, wfList xs = true → wfList ys = true →
    sameList xs ys = true → dumpsList xs = dumpsList ys
  | [], ys, _, _, h => by cases ys <;> simp_all [sameList]
  | x :: xs, ys, hx, hy, h => by
    cases ys with
    | nil => simp [sameList] at h
    | cons y ys =>
      simp only [sameList, wfList, Bool.and_eq_true] at h hx hy
      rw [dumpsList, dumpsList, dumps_eq_of_same x y hx.1 hy.1 h.1,
        dumpsList_eq_of_same xs ys hx.2 hy.2 h.2]

/-- Each text of the first dictionary is the text of an entry of the second. -/
theorem dumpsFields_lookup_of_same : ∀ es fs : List (String × PyVal), wfFields es = true →
    wfFields fs = true → sameFields es fs = true → ∀ {ts}, dumpsFields es = .ok ts →
    ∀ k t, (k, t) ∈ ts → ∃ v', fs.lookup k = some v' ∧ dumps v' = .ok t
  | [], _, _, _, _, _, hts => by
    cases hts
    intro k t hkt
    cases hkt
  | (k', v) :: es, fs, he, hf, h, ts, hts => by
    simp only [sameFields, wfFields, Bool.and_eq_true] at h he
    cases hl : fs.lookup k' with
    | none => simp [hl] at h
    | some v' =>
      simp only [hl] at h
      have hwf' : wf v' = true := wf_of_lookup hf hl
      have heq := dumps_eq_of_same v v' he.1 hwf' h.1
      obtain ⟨t', ht'⟩ := dumps_ok_of_wf v he.1
      obtain ⟨us, hus⟩ := dumpsFields_ok_of_wf es he.2
      simp only [dumpsFields, ht', hus, Except.map, Except.ok.injEq] at hts
      subst hts
      intro k t hkt
      rcases List.mem_cons.mp hkt with hhead | htail
      · cases hhead
        exact ⟨v', hl, by rw [← heq]; exact ht'⟩
      · exact dumpsFields_lookup_of_same es fs he.2 hf h.2 hus k t htail

end

end PyVal

end Python
