import RulesEnrichment.Lib.JsonReading
import Mathlib.Data.List.Lex

/-! # JSON values over code points

    A `String` holds characters. A Python string holds any code points,
    surrogates among them, and `json.dumps` writes the two surrogates of a
    pair like the one character that they spell. `PyJson` are the JSON
    values without floats over such strings.

    * `dumps`: `json.dumps(v, sort_keys=True, separators=(",", ":"))`. An
      integer of more than 4300 digits raises.
    * `ordinary`: no surrogate in it and no such integer.
    * `narrow`: the value with characters in place of code points.
    * `dumps_narrow`, `same_narrow`: an ordinary value keeps its text and
      what it is the same as.
    * `dumps_eq_iff`: ordinary values have one text exactly if they are
      the same up to the order of keys. -/

namespace Python

/-! ## Strings -/

/-- What a Python string is made of. -/
abbrev CodePoint := Fin 1114112

namespace CodePoint

/-- U+D800 to U+DFFF -/
def isSurrogate (p : CodePoint) : Bool := decide (55296 ≤ p.val ∧ p.val < 57344)

def toChar (p : CodePoint) : Char := Char.ofNat p.val

def ofChar (c : Char) : CodePoint where
  val := c.toNat
  isLt := by
    have hvalid := PyVal.toNat_valid c
    omega

/-- What `json.dumps` writes. A surrogate is escaped by itself. -/
def escape (p : CodePoint) : String :=
  if p.isSurrogate then "\\u" ++ PyVal.hex4 p.val else PyVal.escapeChar p.toChar

theorem toNat_toChar {p : CodePoint} (h : p.isSurrogate = false) : p.toChar.toNat = p.val := by
  have hsurrogate : ¬ (55296 ≤ p.val ∧ p.val < 57344) := of_decide_eq_false h
  have hvalid : p.val.isValidChar := by
    unfold Nat.isValidChar
    omega
  unfold toChar Char.ofNat
  rw [dif_pos hvalid]
  rfl

theorem toChar_ofChar (c : Char) : (ofChar c).toChar = c := Char.ofNat_toNat c

theorem isSurrogate_ofChar (c : Char) : (ofChar c).isSurrogate = false := by
  have hvalid := PyVal.toNat_valid c
  unfold isSurrogate
  rw [decide_eq_false_iff_not]
  show ¬ (55296 ≤ c.toNat ∧ c.toNat < 57344)
  omega

theorem toChar_lt {p q : CodePoint} (hp : p.isSurrogate = false) (hq : q.isSurrogate = false) :
    p.toChar < q.toChar ↔ p < q := by
  rw [Fin.lt_def, ← toNat_toChar hp, ← toNat_toChar hq]
  rfl

theorem toChar_inj {p q : CodePoint} (hp : p.isSurrogate = false) (hq : q.isSurrogate = false) :
    p.toChar = q.toChar ↔ p = q := by
  rw [Fin.ext_iff, ← toNat_toChar hp, ← toNat_toChar hq]
  exact Char.toNat_inj.symm

theorem escape_eq_escapeChar {p : CodePoint} (h : p.isSurrogate = false) :
    p.escape = PyVal.escapeChar p.toChar := by
  unfold escape
  rw [h]
  rfl

end CodePoint

abbrev PyStr := List CodePoint

namespace PyStr

def surrogateFree (s : PyStr) : Bool := s.all fun p => !p.isSurrogate

def narrow (s : PyStr) : String := String.ofList (s.map CodePoint.toChar)

def ofString (s : String) : PyStr := s.toList.map CodePoint.ofChar

/-- A string literal of the JSON text. -/
def quote (s : PyStr) : String := "\"" ++ String.join (s.map CodePoint.escape) ++ "\""

theorem narrow_ofString (s : String) : (ofString s).narrow = s := by
  have hchars : CodePoint.toChar ∘ CodePoint.ofChar = id := funext CodePoint.toChar_ofChar
  unfold narrow ofString
  rw [List.map_map, hchars, List.map_id, String.ofList_toList]

theorem surrogateFree_ofString (s : String) : (ofString s).surrogateFree = true := by
  unfold surrogateFree ofString
  simp [CodePoint.isSurrogate_ofChar]

theorem surrogateFree_cons {p : CodePoint} {s : PyStr} :
    surrogateFree (p :: s) = true ↔ p.isSurrogate = false ∧ surrogateFree s = true := by
  simp [surrogateFree]

theorem narrow_inj {s t : PyStr} (hs : s.surrogateFree = true) (ht : t.surrogateFree = true) :
    s.narrow = t.narrow ↔ s = t := by
  unfold narrow
  rw [String.ofList_inj]
  induction s generalizing t with
  | nil => cases t <;> simp
  | cons p s ih =>
    cases t with
    | nil => simp
    | cons q t =>
      obtain ⟨hp, hs⟩ := surrogateFree_cons.mp hs
      obtain ⟨hq, ht⟩ := surrogateFree_cons.mp ht
      simp only [List.map_cons, List.cons.injEq, CodePoint.toChar_inj hp hq, ih hs ht]

/-- Code points and characters are ordered alike. -/
theorem narrow_lt {s t : PyStr} (hs : s.surrogateFree = true) (ht : t.surrogateFree = true) :
    s.narrow < t.narrow ↔ s < t := by
  rw [String.lt_iff_toList_lt]
  unfold narrow
  rw [String.toList_ofList, String.toList_ofList]
  induction s generalizing t with
  | nil => cases t <;> simp
  | cons p s ih =>
    cases t with
    | nil => simp
    | cons q t =>
      obtain ⟨hp, hs⟩ := surrogateFree_cons.mp hs
      obtain ⟨hq, ht⟩ := surrogateFree_cons.mp ht
      simp only [List.map_cons, List.cons_lt_cons_iff, CodePoint.toChar_lt hp hq,
        CodePoint.toChar_inj hp hq, ih hs ht]

theorem narrow_le {s t : PyStr} (hs : s.surrogateFree = true) (ht : t.surrogateFree = true) :
    s.narrow ≤ t.narrow ↔ s ≤ t := by
  rw [← not_lt, ← not_lt, narrow_lt ht hs]

theorem quote_narrow {s : PyStr} (h : s.surrogateFree = true) : PyVal.quote s.narrow = s.quote := by
  have hescapes : ∀ p ∈ s, p.escape = PyVal.escapeChar p.toChar := by
    intro p hp
    have hfree := List.all_eq_true.mp h p hp
    exact CodePoint.escape_eq_escapeChar (by simpa using hfree)
  unfold PyVal.quote quote narrow
  rw [String.toList_ofList, List.map_map, List.map_congr_left hescapes]
  rfl

end PyStr

/-! ## Values -/

inductive PyJson where
  /-- `None` -/
  | null
  | bool (b : Bool)
  | int (i : Int)
  | str (s : PyStr)
  | list (xs : List PyJson)
  | dict (es : List (PyStr × PyJson))

namespace PyJson

mutual

/-- The keys of each dictionary are distinct. -/
def wf : PyJson → Bool
  | .list xs => wfList xs
  | .dict es => decide (es.map Prod.fst).Nodup && wfFields es
  | _ => true

def wfList : List PyJson → Bool
  | [] => true
  | x :: xs => wf x && wfList xs

def wfFields : List (PyStr × PyJson) → Bool
  | [] => true
  | (_, v) :: es => wf v && wfFields es

end

mutual

/-- The same JSON value up to the order of dictionary keys at every depth. -/
def same : PyJson → PyJson → Bool
  | .null, .null => true
  | .bool a, .bool b => a == b
  | .int a, .int b => a == b
  | .str a, .str b => a == b
  | .list xs, .list ys => sameList xs ys
  | .dict es, .dict fs => es.length == fs.length && sameFields es fs
  | _, _ => false

def sameList : List PyJson → List PyJson → Bool
  | [], [] => true
  | x :: xs, y :: ys => same x y && sameList xs ys
  | _, _ => false

/-- Every entry of the first dictionary is in the second. -/
def sameFields : List (PyStr × PyJson) → List (PyStr × PyJson) → Bool
  | [], _ => true
  | (k, v) :: es, fs =>
    (match fs.lookup k with
      | some v' => same v v'
      | none => false) && sameFields es fs

end

/-- `sys.get_int_max_str_digits()`, by default. -/
def maxStrDigits : Nat := 4300

/-- The integer has more digits than the interpreter converts to a text. -/
def tooLong (i : Int) : Bool := decide (maxStrDigits < (Nat.toDigits 10 i.natAbs).length)

mutual

/-- No string in it has a surrogate, and no integer is too long. -/
def ordinary : PyJson → Bool
  | .int i => !tooLong i
  | .str s => s.surrogateFree
  | .list xs => ordinaryList xs
  | .dict es => ordinaryFields es
  | _ => true

def ordinaryList : List PyJson → Bool
  | [] => true
  | x :: xs => ordinary x && ordinaryList xs

def ordinaryFields : List (PyStr × PyJson) → Bool
  | [] => true
  | (k, v) :: es => k.surrogateFree && ordinary v && ordinaryFields es

end

mutual

/-- The value with characters for code points. -/
def narrow : PyJson → PyVal
  | .null => .null
  | .bool b => .bool b
  | .int i => .int i
  | .str s => .str s.narrow
  | .list xs => .list (narrowList xs)
  | .dict es => .dict (narrowFields es)

def narrowList : List PyJson → List PyVal
  | [] => []
  | x :: xs => narrow x :: narrowList xs

def narrowFields : List (PyStr × PyJson) → List (String × PyVal)
  | [] => []
  | (k, v) :: es => (k.narrow, narrow v) :: narrowFields es

end

/-! ## JSON text -/

/-- A dictionary's text from the keys and the texts of its values. Strings
    are sorted by their code points. -/
def objectText (fields : List (PyStr × String)) : String :=
  "\x7b" ++
    PyVal.joinWith "," ((StableSort.sortBy Prod.fst fields).map fun p =>
      p.1.quote ++ ":" ++ p.2) ++
    "\x7d"

mutual

/-- `json.dumps(v, sort_keys=True, separators=(",", ":"))`. The error is
    the message of a `ValueError`. -/
def dumps : PyJson → Except String String
  | .null => .ok "null"
  | .bool true => .ok "true"
  | .bool false => .ok "false"
  | .int i =>
    if tooLong i then
      .error ("Exceeds the limit (4300 digits) for integer string conversion; " ++
        "use sys.set_int_max_str_digits() to increase the limit")
    else .ok (toString i)
  | .str s => .ok s.quote
  | .list xs => (dumpsList xs).map fun ts => "[" ++ PyVal.joinWith "," ts ++ "]"
  | .dict es => (dumpsFields es).map objectText

def dumpsList : List PyJson → Except String (List String)
  | [] => .ok []
  | x :: xs =>
    match dumps x with
    | .error t => .error t
    | .ok t => (dumpsList xs).map (t :: ·)

def dumpsFields : List (PyStr × PyJson) → Except String (List (PyStr × String))
  | [] => .ok []
  | (k, v) :: es =>
    match dumps v with
    | .error t => .error t
    | .ok t => (dumpsFields es).map ((k, t) :: ·)

end

theorem tooLong_iff {i : Int} : tooLong i = true ↔ 10 ^ maxStrDigits ≤ i.natAbs := by
  unfold tooLong
  rw [decide_eq_true_eq, ← not_le, Nat.length_toDigits_le_iff (by decide) (by decide), not_lt]

/-! ## An ordinary value keeps its meaning -/

theorem ordinaryFields_cons {k : PyStr} {v : PyJson} {es : List (PyStr × PyJson)} :
    ordinaryFields ((k, v) :: es) = true ↔
      k.surrogateFree = true ∧ ordinary v = true ∧ ordinaryFields es = true := by
  simp only [ordinaryFields, Bool.and_eq_true, and_assoc]

theorem narrowFields_keys (es : List (PyStr × PyJson)) :
    (narrowFields es).map Prod.fst = (es.map Prod.fst).map PyStr.narrow := by
  induction es with
  | nil => rfl
  | cons e es ih => simp [narrowFields, ih]

theorem length_narrowFields (es : List (PyStr × PyJson)) :
    (narrowFields es).length = es.length := by
  simpa using congrArg List.length (narrowFields_keys es)

theorem surrogateFree_of_mem {es : List (PyStr × PyJson)} (h : ordinaryFields es = true) {k : PyStr}
    (hk : k ∈ es.map Prod.fst) : k.surrogateFree = true := by
  induction es with
  | nil => cases hk
  | cons e es ih =>
    obtain ⟨k', v⟩ := e
    obtain ⟨hkey, -, hes⟩ := ordinaryFields_cons.mp h
    rcases List.mem_cons.mp hk with rfl | hk
    · exact hkey
    · exact ih hes hk

/-- Distinct keys stay distinct. -/
theorem nodup_narrowFields {es : List (PyStr × PyJson)} (h : ordinaryFields es = true)
    (hn : (es.map Prod.fst).Nodup) : ((narrowFields es).map Prod.fst).Nodup := by
  rw [narrowFields_keys]
  refine hn.map_on ?_
  intro k hk k' hk' heq
  exact (PyStr.narrow_inj (surrogateFree_of_mem h hk) (surrogateFree_of_mem h hk')).mp heq

theorem lookup_narrowFields {es : List (PyStr × PyJson)} (h : ordinaryFields es = true) {k : PyStr}
    (hk : k.surrogateFree = true) :
    (narrowFields es).lookup k.narrow = (es.lookup k).map narrow := by
  induction es with
  | nil => rfl
  | cons e es ih =>
    obtain ⟨k', v⟩ := e
    obtain ⟨hkey, -, hes⟩ := ordinaryFields_cons.mp h
    rw [narrowFields, List.lookup_cons, List.lookup_cons, ih hes]
    by_cases hkk : k = k'
    · simp [hkk]
    · have hne : k.narrow ≠ k'.narrow := fun heq => hkk ((PyStr.narrow_inj hk hkey).mp heq)
      rw [beq_false_of_ne hkk, beq_false_of_ne hne]

theorem ordinary_of_lookup {es : List (PyStr × PyJson)} (h : ordinaryFields es = true) {k : PyStr}
    {v : PyJson} (hk : es.lookup k = some v) : ordinary v = true := by
  induction es with
  | nil => simp at hk
  | cons e es ih =>
    obtain ⟨k', v'⟩ := e
    obtain ⟨-, hv, hes⟩ := ordinaryFields_cons.mp h
    rw [List.lookup_cons] at hk
    split at hk
    · cases hk; exact hv
    · exact ih hes hk

mutual

theorem wf_narrow : ∀ v : PyJson, ordinary v = true → wf v = true → v.narrow.wf = true
  | .null, _, _ => rfl
  | .bool _, _, _ => rfl
  | .int _, _, _ => rfl
  | .str _, _, _ => rfl
  | .list xs, ho, h => wfList_narrow xs ho h
  | .dict es, ho, h => by
    simp only [wf, Bool.and_eq_true, decide_eq_true_eq] at h
    simp only [narrow, PyVal.wf, Bool.and_eq_true, decide_eq_true_eq]
    exact ⟨nodup_narrowFields ho h.1, wfFields_narrow es ho h.2⟩

theorem wfList_narrow : ∀ xs : List PyJson, ordinaryList xs = true → wfList xs = true →
    PyVal.wfList (narrowList xs) = true
  | [], _, _ => rfl
  | x :: xs, ho, h => by
    simp only [ordinaryList, wfList, Bool.and_eq_true] at ho h
    simp only [narrowList, PyVal.wfList, Bool.and_eq_true]
    exact ⟨wf_narrow x ho.1 h.1, wfList_narrow xs ho.2 h.2⟩

theorem wfFields_narrow : ∀ es : List (PyStr × PyJson), ordinaryFields es = true →
    wfFields es = true → PyVal.wfFields (narrowFields es) = true
  | [], _, _ => rfl
  | (k, v) :: es, ho, h => by
    obtain ⟨-, hv, hes⟩ := ordinaryFields_cons.mp ho
    simp only [wfFields, Bool.and_eq_true] at h
    simp only [narrowFields, PyVal.wfFields, Bool.and_eq_true]
    exact ⟨wf_narrow v hv h.1, wfFields_narrow es hes h.2⟩

end

mutual

theorem floatless_narrow : ∀ v : PyJson, v.narrow.floatless = true
  | .null => rfl
  | .bool _ => rfl
  | .int _ => rfl
  | .str _ => rfl
  | .list xs => floatlessList_narrow xs
  | .dict es => floatlessFields_narrow es

theorem floatlessList_narrow : ∀ xs : List PyJson, PyVal.floatlessList (narrowList xs) = true
  | [] => rfl
  | x :: xs => by
    simp only [narrowList, PyVal.floatlessList, floatless_narrow x, floatlessList_narrow xs,
      Bool.and_self]

theorem floatlessFields_narrow : ∀ es : List (PyStr × PyJson),
    PyVal.floatlessFields (narrowFields es) = true
  | [] => rfl
  | (k, v) :: es => by
    simp only [narrowFields, PyVal.floatlessFields, floatless_narrow v, floatlessFields_narrow es,
      Bool.and_self]

end

mutual

theorem same_narrow : ∀ v w : PyJson, ordinary v = true → ordinary w = true →
    PyVal.same v.narrow w.narrow = same v w
  | .null, w, _, _ => by cases w <;> rfl
  | .bool _, w, _, _ => by cases w <;> rfl
  | .int _, w, _, _ => by cases w <;> rfl
  | .str s, w, hs, hw => by
    cases w with
    | str t =>
      simp only [narrow, PyVal.same, same]
      rw [Bool.eq_iff_iff, beq_iff_eq, beq_iff_eq, PyStr.narrow_inj hs hw]
    | _ => rfl
  | .list xs, w, hv, hw => by
    cases w with
    | list ys => exact sameList_narrow xs ys hv hw
    | _ => rfl
  | .dict es, w, hv, hw => by
    cases w with
    | dict fs =>
      simp only [narrow, PyVal.same, same, length_narrowFields, sameFields_narrow es fs hv hw]
    | _ => rfl

theorem sameList_narrow : ∀ xs ys : List PyJson, ordinaryList xs = true → ordinaryList ys = true →
    PyVal.sameList (narrowList xs) (narrowList ys) = sameList xs ys
  | [], ys, _, _ => by cases ys <;> rfl
  | x :: xs, ys, hx, hy => by
    cases ys with
    | nil => rfl
    | cons y ys =>
      simp only [ordinaryList, Bool.and_eq_true] at hx hy
      simp only [narrowList, PyVal.sameList, sameList, same_narrow x y hx.1 hy.1,
        sameList_narrow xs ys hx.2 hy.2]

theorem sameFields_narrow : ∀ es fs : List (PyStr × PyJson), ordinaryFields es = true →
    ordinaryFields fs = true →
    PyVal.sameFields (narrowFields es) (narrowFields fs) = sameFields es fs
  | [], _, _, _ => rfl
  | (k, v) :: es, fs, he, hf => by
    obtain ⟨hk, hv, hes⟩ := ordinaryFields_cons.mp he
    simp only [narrowFields, PyVal.sameFields, sameFields, lookup_narrowFields hf hk,
      sameFields_narrow es fs hes hf]
    cases hl : fs.lookup k with
    | none => rfl
    | some w =>
      simp only [Option.map_some, same_narrow v w hv (ordinary_of_lookup hf hl)]

end

/-- The texts of a dictionary's entries, keyed by characters. -/
def narrowKeys (ts : List (PyStr × String)) : List (String × String) :=
  ts.map fun p => (p.1.narrow, p.2)

theorem dumpsFields_keys {es : List (PyStr × PyJson)} {ts : List (PyStr × String)}
    (h : dumpsFields es = .ok ts) : ts.map Prod.fst = es.map Prod.fst := by
  induction es generalizing ts with
  | nil => cases h; rfl
  | cons e es ih =>
    obtain ⟨k, v⟩ := e
    simp only [dumpsFields] at h
    cases hv : dumps v with
    | error t => simp [hv] at h
    | ok t =>
      cases hes : dumpsFields es with
      | error u => simp [hv, hes, Except.map] at h
      | ok us =>
        simp only [hv, hes, Except.map, Except.ok.injEq] at h
        subst h
        simp [ih hes]

/-- Keys are sorted alike and written alike. -/
theorem objectText_narrowKeys {ts : List (PyStr × String)}
    (h : ∀ p ∈ ts, p.1.surrogateFree = true) :
    PyVal.objectText (narrowKeys ts) = objectText ts := by
  have hsorted : StableSort.sortBy Prod.fst (narrowKeys ts) =
      narrowKeys (StableSort.sortBy Prod.fst ts) := by
    refine (List.map_insertionSort _ _ _ ts ?_).symm
    intro p hp q hq
    exact (PyStr.narrow_le (h p hp) (h q hq)).symm
  have hentries : (narrowKeys (StableSort.sortBy Prod.fst ts)).map
      (fun p => PyVal.quote p.1 ++ ":" ++ p.2) =
        (StableSort.sortBy Prod.fst ts).map fun p => p.1.quote ++ ":" ++ p.2 := by
    unfold narrowKeys
    rw [List.map_map]
    refine List.map_congr_left ?_
    intro p hp
    show PyVal.quote p.1.narrow ++ ":" ++ p.2 = p.1.quote ++ ":" ++ p.2
    rw [PyStr.quote_narrow (h p ((StableSort.mem_sortBy _).mp hp))]
  unfold PyVal.objectText objectText
  rw [hsorted, hentries]

mutual

/-- **One text**: an ordinary value is written as the value with
    characters is. -/
theorem dumps_narrow : ∀ v : PyJson, ordinary v = true → v.narrow.dumps = v.dumps
  | .null, _ => rfl
  | .bool true, _ => rfl
  | .bool false, _ => rfl
  | .int i, h => by
    have hlong : tooLong i = false := by simpa [ordinary] using h
    simp [narrow, PyVal.dumps, dumps, hlong]
  | .str s, h => by rw [narrow, PyVal.dumps, dumps, PyStr.quote_narrow h]
  | .list xs, h => by rw [narrow, PyVal.dumps, dumps, dumpsList_narrow xs h]
  | .dict es, h => by
    rw [narrow, PyVal.dumps, dumps, dumpsFields_narrow es h]
    cases hts : dumpsFields es with
    | error t => rfl
    | ok ts =>
      have hfree : ∀ p ∈ ts, p.1.surrogateFree = true := by
        intro p hp
        refine surrogateFree_of_mem h ?_
        rw [← dumpsFields_keys hts]
        exact List.mem_map_of_mem hp
      exact congrArg Except.ok (objectText_narrowKeys hfree)

theorem dumpsList_narrow : ∀ xs : List PyJson, ordinaryList xs = true →
    PyVal.dumpsList (narrowList xs) = dumpsList xs
  | [], _ => rfl
  | x :: xs, h => by
    simp only [ordinaryList, Bool.and_eq_true] at h
    have hhead := dumps_narrow x h.1
    have htail := dumpsList_narrow xs h.2
    cases hx : dumps x with
    | error t =>
      rw [hx] at hhead
      simp only [narrowList, PyVal.dumpsList, dumpsList, hhead, hx]
    | ok t =>
      rw [hx] at hhead
      simp only [narrowList, PyVal.dumpsList, dumpsList, hhead, htail, hx]

theorem dumpsFields_narrow : ∀ es : List (PyStr × PyJson), ordinaryFields es = true →
    PyVal.dumpsFields (narrowFields es) = (dumpsFields es).map narrowKeys
  | [], _ => rfl
  | (k, v) :: es, h => by
    obtain ⟨-, hv, hes⟩ := ordinaryFields_cons.mp h
    rw [narrowFields, PyVal.dumpsFields, dumpsFields, dumps_narrow v hv, dumpsFields_narrow es hes]
    cases dumps v with
    | error t => rfl
    | ok t => cases dumpsFields es <;> rfl

end

theorem dumps_ok {v : PyJson} (ho : ordinary v = true) (h : wf v = true) :
    ∃ t, v.dumps = .ok t := by
  obtain ⟨t, ht⟩ := PyVal.dumps_ok_of_wf v.narrow (wf_narrow v ho h)
  exact ⟨t, by rw [← dumps_narrow v ho, ht]⟩

/-- **The text of an ordinary value** is that of another one exactly if
    they are the same. -/
theorem dumps_eq_iff {v w : PyJson} (hov : ordinary v = true) (how : ordinary w = true)
    (hv : wf v = true) (hw : wf w = true) : v.dumps = w.dumps ↔ same v w = true := by
  have hv' := wf_narrow v hov hv
  have hw' := wf_narrow w how hw
  rw [← dumps_narrow v hov, ← dumps_narrow w how, ← same_narrow v w hov how]
  exact ⟨PyVal.same_of_dumps_eq hv' (floatless_narrow v) hw' (floatless_narrow w),
    PyVal.dumps_eq_of_same _ _ hv' hw'⟩

end PyJson

/-! ## Objects -/

/-- A dictionary with strings for keys that is a JSON value. -/
structure JsonDict where
  entries : List (PyStr × PyJson)
  wf : (PyJson.dict entries).wf = true := by decide

namespace JsonDict

def toVal (d : JsonDict) : PyJson := .dict d.entries

/-- The same JSON object, whatever the order of keys. -/
def same (d e : JsonDict) : Bool := PyJson.same d.toVal e.toVal

def narrow (d : JsonDict) (h : d.toVal.ordinary = true) : JsonObject where
  entries := PyJson.narrowFields d.entries
  wf := PyJson.wf_narrow d.toVal h d.wf

end JsonDict

end Python
