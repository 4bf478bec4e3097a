import Mathlib.Data.List.DropRight
import Mathlib.Data.List.Flatten

/-! # Reading a URL

    The path of a URL ends at the first `?` or `#`. Its segments stand
    between slashes; each is percent-decoded by itself, and the segments
    `.` and `..` are resolved (`segments`).

    A text that is put between two slashes of a path comes back as one
    segment if and only if it is `Verbatim` (`descend_pieces_iff`). -/

namespace Url

/-! ## Bytes -/

/-- The UTF-8 bytes of a text. -/
def utf8 (cs : List Char) : List UInt8 := cs.flatMap String.utf8EncodeChar

theorem utf8_cons (c : Char) (cs : List Char) :
    utf8 (c :: cs) = String.utf8EncodeChar c ++ utf8 cs := List.flatMap_cons

theorem utf8_injective : Function.Injective utf8 := by
  intro cs ds h
  have hbytes : cs.utf8Encode = ds.utf8Encode := by
    show (utf8 cs).toByteArray = (utf8 ds).toByteArray
    rw [h]
  apply String.ofList_injective
  rw [← String.toByteArray_inj, String.toByteArray_ofList, String.toByteArray_ofList, hbytes]

/-- A part of a text has fewer bytes than the text. -/
theorem length_utf8_lt {cs ds : List Char} (h : cs.Sublist ds) (hne : cs ≠ ds) :
    (utf8 cs).length < (utf8 ds).length := by
  have hsub : (utf8 cs).Sublist (utf8 ds) := h.flatMap String.utf8EncodeChar
  refine Nat.lt_of_le_of_ne hsub.length_le ?_
  intro hlen
  exact hne (utf8_injective (hsub.eq_of_length hlen))

/-! ## Percent-decoding -/

def hexDigit (c : Char) : Option Nat :=
  if '0' ≤ c ∧ c ≤ '9' then some (c.toNat - 48)
  else if 'A' ≤ c ∧ c ≤ 'F' then some (c.toNat - 55)
  else if 'a' ≤ c ∧ c ≤ 'f' then some (c.toNat - 87)
  else none

/-- The byte that `%` and two hexadecimal digits stand for. -/
def escaped (a b : Char) : Option UInt8 :=
  match hexDigit a, hexDigit b with
  | some hi, some lo => some (UInt8.ofNat (16 * hi + lo))
  | _, _ => none

/-- A `%` without two digits stands for itself. -/
def decode : List Char → List UInt8
  | [] => []
  | '%' :: a :: b :: cs =>
    match escaped a b with
    | some byte => byte :: decode cs
    | none => String.utf8EncodeChar '%' ++ decode (a :: b :: cs)
  | c :: cs => String.utf8EncodeChar c ++ decode cs

/-- There is a `%` with two digits. -/
def hasEscape : List Char → Bool
  | [] => false
  | '%' :: a :: b :: cs => (escaped a b).isSome || hasEscape (a :: b :: cs)
  | _ :: cs => hasEscape cs

theorem length_utf8_cons (c : Char) (cs : List Char) :
    (utf8 cs).length < (utf8 (c :: cs)).length := by
  have hpos := c.utf8Size_pos
  rw [utf8_cons, List.length_append, String.length_utf8EncodeChar]
  omega

/-- An escape has three characters for its one byte; a text without
    escapes stands for itself. -/
theorem decode_cases (cs : List Char) :
    (hasEscape cs = false ∧ decode cs = utf8 cs) ∨
      (hasEscape cs = true ∧ (decode cs).length < (utf8 cs).length) := by
  induction cs using decode.induct with
  | case1 => exact Or.inl ⟨rfl, rfl⟩
  | case2 a b cs byte hescaped ih =>
    have hle : (decode cs).length ≤ (utf8 cs).length := by
      rcases ih with ⟨-, heq⟩ | ⟨-, hlt⟩
      · rw [heq]
      · exact hlt.le
    have hb := length_utf8_cons b cs
    have ha := length_utf8_cons a (b :: cs)
    have hpercent := length_utf8_cons '%' (a :: b :: cs)
    right
    simp only [hasEscape, decode, hescaped, Option.isSome_some, Bool.true_or, List.length_cons,
      true_and]
    omega
  | case3 a b cs hescaped ih =>
    simp only [hasEscape, decode, hescaped, Option.isSome_none, Bool.false_or, utf8_cons '%',
      List.length_append, List.append_cancel_left_eq, Nat.add_lt_add_iff_left]
    exact ih
  | case4 c cs hno ih =>
    rw [hasEscape, decode]
    · simp only [utf8_cons c, List.length_append, List.append_cancel_left_eq,
        Nat.add_lt_add_iff_left]
      exact ih
    · exact hno
    · exact hno

theorem decode_eq_utf8_iff {cs : List Char} : decode cs = utf8 cs ↔ hasEscape cs = false := by
  rcases decode_cases cs with ⟨hplain, heq⟩ | ⟨hescape, hlt⟩
  · exact ⟨fun _ => hplain, fun _ => heq⟩
  · rw [hescape]
    constructor
    · intro heq
      rw [heq] at hlt
      omega
    · intro h
      cases h

theorem length_decode_le (cs : List Char) : (decode cs).length ≤ (utf8 cs).length := by
  rcases decode_cases cs with ⟨-, heq⟩ | ⟨-, hlt⟩
  · rw [heq]
  · exact hlt.le

/-! ## Segments -/

/-- The segments of a text, decoded. -/
def pieces (cs : List Char) : List (List UInt8) := (cs.splitOn '/').map decode

theorem pieces_append (cs ds : List Char) :
    pieces (cs ++ '/' :: ds) = pieces cs ++ pieces ds := by
  unfold pieces
  rw [List.splitOn_append_cons_self, List.map_append]

theorem pieces_of_not_mem {cs : List Char} (h : '/' ∉ cs) : pieces cs = [decode cs] := by
  unfold pieces
  rw [List.splitOn_eq_singleton h]
  rfl

/-- A segment is a part of the text without the separator. -/
theorem mem_splitOn {sep : Char} {cs piece : List Char} (h : piece ∈ cs.splitOn sep) :
    piece.Sublist cs ∧ sep ∉ piece := by
  induction cs generalizing piece with
  | nil =>
    rw [List.splitOn_nil, List.mem_singleton] at h
    rw [h]
    exact ⟨List.Sublist.refl _, List.not_mem_nil⟩
  | cons c cs ih =>
    rw [List.splitOn_cons_eq_if_modifyHead] at h
    split at h
    · next hsep =>
      rcases List.mem_cons.mp h with hnil | hmem
      · rw [hnil]
        exact ⟨List.nil_sublist _, List.not_mem_nil⟩
      · exact ⟨(ih hmem).1.cons c, (ih hmem).2⟩
    · next hsep =>
      obtain ⟨first, others, hsplit⟩ := List.exists_cons_of_ne_nil (List.splitOn_ne_nil sep cs)
      rw [hsplit] at ih h
      rw [List.modifyHead_cons] at h
      rcases List.mem_cons.mp h with hfirst | hmem
      · obtain ⟨hsub, hnot⟩ := ih List.mem_cons_self
        rw [hfirst]
        refine ⟨hsub.cons_cons c, ?_⟩
        rw [List.mem_cons, not_or]
        exact ⟨fun heq => hsep (beq_iff_eq.mpr heq.symm), hnot⟩
      · obtain ⟨hsub, hnot⟩ := ih (List.mem_cons_of_mem _ hmem)
        exact ⟨hsub.cons c, hnot⟩

/-- The segments `.` and `..` -/
def dot : List UInt8 := utf8 ['.']

def dotdot : List UInt8 := utf8 ['.', '.']

/-- One segment further: `.` stays where it is, `..` goes back. -/
def push (st : List (List UInt8)) (s : List UInt8) : List (List UInt8) :=
  if s = dot then st
  else if s = dotdot then st.dropLast
  else st ++ [s]

/-- Where the segments lead to from `st`. -/
def descend (st ss : List (List UInt8)) : List (List UInt8) := ss.foldl push st

theorem descend_append (st ss ts : List (List UInt8)) :
    descend st (ss ++ ts) = descend (descend st ss) ts := List.foldl_append

theorem descend_cons (st : List (List UInt8)) (s : List UInt8) (ss : List (List UInt8)) :
    descend st (s :: ss) = descend (push st s) ss := rfl

theorem descend_nil (st : List (List UInt8)) : descend st [] = st := rfl

theorem push_of_ne {st : List (List UInt8)} {s : List UInt8} (hdot : s ≠ dot)
    (hdotdot : s ≠ dotdot) : push st s = st ++ [s] := by
  unfold push
  rw [if_neg hdot, if_neg hdotdot]

def proper (s : List UInt8) : Bool := s ≠ dot ∧ s ≠ dotdot

/-- Proper segments are appended one after the other. -/
theorem descend_of_proper {ss : List (List UInt8)} (h : ss.all proper = true)
    (st : List (List UInt8)) : descend st ss = st ++ ss := by
  induction ss generalizing st with
  | nil => rw [descend_nil, List.append_nil]
  | cons s ss ih =>
    rw [List.all_cons, Bool.and_eq_true] at h
    obtain ⟨hs, hss⟩ := h
    simp only [proper, decide_eq_true_eq] at hs
    rw [descend_cons, push_of_ne hs.1 hs.2, ih hss, List.append_assoc, List.singleton_append]

/-- What lies beyond the first `n` segments has been there, or is a proper
    segment of the way. -/
theorem mem_drop_descend {n : Nat} {s : List UInt8} {ss st : List (List UInt8)}
    (h : s ∈ (descend st ss).drop n) : s ∈ st.drop n ∨ (s ∈ ss ∧ s ≠ dot ∧ s ≠ dotdot) := by
  induction ss generalizing st with
  | nil => exact Or.inl h
  | cons t ss ih =>
    rcases ih h with hold | ⟨hmem, hproper⟩
    · unfold push at hold
      split_ifs at hold with hdot hdotdot
      · exact Or.inl hold
      · rw [List.dropLast_eq_take, List.drop_take] at hold
        exact Or.inl (List.mem_of_mem_take hold)
      · rw [List.drop_append, List.mem_append] at hold
        rcases hold with hold | hnew
        · exact Or.inl hold
        · have heq := List.mem_singleton.mp (List.mem_of_mem_drop hnew)
          rw [heq]
          exact Or.inr ⟨List.mem_cons_self, hdot, hdotdot⟩
    · exact Or.inr ⟨List.mem_cons_of_mem _ hmem, hproper⟩

/-- No segment that is written between two slashes is as long as a text
    that has a slash. -/
theorem length_lt_of_mem_pieces {cs : List Char} {s : List UInt8} (hslash : '/' ∈ cs)
    (h : s ∈ pieces cs) : s.length < (utf8 cs).length := by
  obtain ⟨piece, hpiece, rfl⟩ := List.mem_map.mp h
  obtain ⟨hsub, hnot⟩ := mem_splitOn hpiece
  have hlt := length_utf8_lt hsub fun heq => hnot (heq ▸ hslash)
  exact (length_decode_le piece).trans_lt hlt

theorem length_le_of_mem_pieces {cs : List Char} {s : List UInt8} (h : s ∈ pieces cs) :
    s.length ≤ (utf8 cs).length := by
  obtain ⟨piece, hpiece, rfl⟩ := List.mem_map.mp h
  have hsub : (utf8 piece).Sublist (utf8 cs) := (mem_splitOn hpiece).1.flatMap _
  exact (length_decode_le piece).trans hsub.length_le

/-- **As one segment**: a text between two slashes of a path leads to the
    segment it spells if and only if it has no slash and no escape and is
    neither `.` nor `..`. -/
theorem descend_pieces_iff {st : List (List UInt8)} {cs : List Char} :
    descend st (pieces cs) = st ++ [utf8 cs] ↔
      '/' ∉ cs ∧ hasEscape cs = false ∧ cs ≠ ['.'] ∧ cs ≠ ['.', '.'] := by
  constructor
  · intro h
    have hmem : utf8 cs ∈ (descend st (pieces cs)).drop st.length := by
      rw [h, List.drop_left]
      exact List.mem_singleton_self _
    obtain ⟨hpiece, hdot, hdotdot⟩ : utf8 cs ∈ pieces cs ∧ utf8 cs ≠ dot ∧ utf8 cs ≠ dotdot := by
      rcases mem_drop_descend hmem with hold | hnew
      · rw [List.drop_length] at hold
        cases hold
      · exact hnew
    have hslash : '/' ∉ cs := fun hslash => (length_lt_of_mem_pieces hslash hpiece).ne rfl
    rw [pieces_of_not_mem hslash, List.mem_singleton] at hpiece
    refine ⟨hslash, decode_eq_utf8_iff.mp hpiece.symm, ?_, ?_⟩
    · rintro rfl
      exact hdot rfl
    · rintro rfl
      exact hdotdot rfl
  · rintro ⟨hslash, hescape, hdot, hdotdot⟩
    rw [pieces_of_not_mem hslash, decode_eq_utf8_iff.mpr hescape]
    exact push_of_ne (fun h => hdot (utf8_injective h)) fun h => hdotdot (utf8_injective h)

/-! ## The path of a URL -/

/-- Neither a query nor a fragment starts here. -/
def inPath (c : Char) : Bool := c ≠ '?' ∧ c ≠ '#'

def inAuthority (c : Char) : Bool := c ≠ '/' ∧ inPath c

def inScheme (c : Char) : Bool := c ≠ ':' ∧ inAuthority c

/-- The characters before a query and a fragment. -/
def untilQuery (cs : List Char) : List Char := cs.takeWhile inPath

def dropScheme (cs : List Char) : List Char :=
  match cs.takeWhile inScheme, cs.dropWhile inScheme with
  | _ :: _, ':' :: rest => rest
  | _, _ => cs

def dropAuthority : List Char → List Char
  | '/' :: '/' :: cs => cs.dropWhile inAuthority
  | cs => cs

def path (url : List Char) : List Char := untilQuery (dropAuthority (dropScheme url))

/-- The segments behind the first slash of a path, as they are written. -/
def rawSegments (path : List Char) : List (List UInt8) := (pieces path).tail

/-- A path that ends in `.` or `..` leads to a directory: its last segment
    is empty. -/
def trailing (ss : List (List UInt8)) : List (List UInt8) :=
  if ss.getLast? = some dot ∨ ss.getLast? = some dotdot then [[]] else []

/-- **The segments of a URL**: where its path leads to. -/
def segments (url : List Char) : List (List UInt8) :=
  descend [] (rawSegments (path url)) ++ trailing (rawSegments (path url))

theorem trailing_append {ss ts : List (List UInt8)} (hts : ts ≠ []) :
    trailing (ss ++ ts) = trailing ts := by
  unfold trailing
  rw [List.getLast?_append_of_ne_nil _ hts]

theorem pieces_ne_nil (cs : List Char) : pieces cs ≠ [] := by
  unfold pieces
  simp

/-- The first segment that a text leads to is no longer than the text. -/
theorem length_le_of_descend {st ss : List (List UInt8)} {cs : List Char} {s : List UInt8}
    (h : descend st (pieces cs) ++ trailing (pieces cs) = st ++ s :: ss) :
    s.length ≤ (utf8 cs).length := by
  have hmem : s ∈ (descend st (pieces cs) ++ trailing (pieces cs)).drop st.length := by
    rw [h, List.drop_left]
    exact List.mem_cons_self
  rw [List.drop_append, List.mem_append] at hmem
  rcases hmem with hway | htrail
  · rcases mem_drop_descend hway with hold | ⟨hpiece, -⟩
    · rw [List.drop_length] at hold
      cases hold
    · exact length_le_of_mem_pieces hpiece
  · have hin := List.mem_of_mem_drop htrail
    unfold trailing at hin
    split at hin
    · rw [List.mem_singleton.mp hin]
      exact Nat.zero_le _
    · cases hin

theorem rawSegments_append (cs ds : List Char) :
    rawSegments (cs ++ '/' :: ds) = rawSegments cs ++ pieces ds := by
  unfold rawSegments
  rw [pieces_append, List.tail_append_of_ne_nil (pieces_ne_nil cs)]

theorem untilQuery_append {cs : List Char} (h : cs.all inPath = true) (ds : List Char) :
    untilQuery (cs ++ ds) = cs ++ untilQuery ds :=
  List.takeWhile_append_of_pos (List.all_eq_true.mp h)

theorem untilQuery_eq_self {cs : List Char} (h : cs.all inPath = true) : untilQuery cs = cs :=
  List.takeWhile_eq_self_iff.mpr (List.all_eq_true.mp h)

theorem all_inPath_iff {cs : List Char} : cs.all inPath = true ↔ '?' ∉ cs ∧ '#' ∉ cs := by
  simp only [List.all_eq_true, inPath, decide_eq_true_eq]
  constructor
  · intro h
    exact ⟨fun hmem => (h _ hmem).1 rfl, fun hmem => (h _ hmem).2 rfl⟩
  · rintro ⟨hquery, hfragment⟩ c hc
    exact ⟨fun heq => hquery (heq ▸ hc), fun heq => hfragment (heq ▸ hc)⟩

/-- A query or a fragment cuts the text short, whatever comes after it. -/
theorem untilQuery_cut {cs : List Char} (h : ¬ cs.all inPath = true) (ds : List Char) :
    untilQuery (cs ++ ds) = untilQuery cs ∧ (utf8 (untilQuery cs)).length < (utf8 cs).length := by
  have hstop : untilQuery cs ≠ cs := by
    intro hall
    exact h (List.all_eq_true.mpr (List.takeWhile_eq_self_iff.mp hall))
  constructor
  · unfold untilQuery
    rw [List.takeWhile_append, if_neg]
    intro hlen
    exact hstop ((List.takeWhile_prefix _).eq_of_length hlen)
  · exact length_utf8_lt (List.takeWhile_sublist _) hstop

/-! ## Base URLs -/

/-- A scheme, an authority and a path, without query and fragment. -/
structure Base where
  scheme : List Char
  authority : List Char
  path : List Char
  scheme_ne : scheme ≠ [] := by decide
  scheme_chars : scheme.all inScheme = true := by decide
  authority_ne : authority ≠ [] := by decide
  authority_chars : authority.all inAuthority = true := by decide
  path_root : path = [] ∨ path.head? = some '/' := by decide
  path_chars : path.all inPath = true := by decide

namespace Base

variable (b : Base)

/-- The text in front of the path. -/
def origin : List Char := b.scheme ++ ':' :: '/' :: '/' :: b.authority

def text : List Char := b.origin ++ b.path

/-- The path without the slashes at its end. -/
def directory : List Char := b.path.rdropWhile (· = '/')

/-- The segments of the base path. -/
def segments : List (List UInt8) := descend [] (rawSegments b.directory)

variable {b}

/-- What follows the origin is the path. -/
theorem path_origin {rest : List Char} (hrest : rest.head? = some '/') :
    Url.path (b.origin ++ rest) = untilQuery rest := by
  obtain ⟨tail, rfl⟩ : ∃ tail, rest = '/' :: tail := by
    cases rest with
    | nil => cases hrest
    | cons c tail =>
      cases hrest
      exact ⟨tail, rfl⟩
  have hscheme : dropScheme (b.origin ++ '/' :: tail) =
      '/' :: '/' :: (b.authority ++ '/' :: tail) := by
    have hpos := List.all_eq_true.mp b.scheme_chars
    have hcolon : inScheme ':' = false := by decide
    unfold dropScheme origin
    simp only [List.append_assoc, List.cons_append]
    rw [List.takeWhile_append_of_pos hpos, List.dropWhile_append_of_pos hpos]
    obtain ⟨c, cs, hcons⟩ := List.exists_cons_of_ne_nil b.scheme_ne
    simp [hcons, hcolon]
  have hauthority : dropAuthority ('/' :: '/' :: (b.authority ++ '/' :: tail)) = '/' :: tail := by
    show List.dropWhile _ (b.authority ++ '/' :: tail) = _
    have hslash : inAuthority '/' = false := by decide
    rw [List.dropWhile_append_of_pos (List.all_eq_true.mp b.authority_chars)]
    simp [hslash]
  unfold Url.path
  rw [hscheme, hauthority]

theorem directory_head (rest : List Char) : (b.directory ++ '/' :: rest).head? = some '/' := by
  have hfront : b.directory <+: b.path := List.rdropWhile_prefix _ _
  rcases b.path_root with hnil | hroot
  · rw [hnil, List.prefix_nil] at hfront
    rw [hfront]
    rfl
  · cases hdir : b.directory with
    | nil => rfl
    | cons c cs =>
      obtain ⟨tail, htail⟩ := hfront
      rw [← htail, hdir] at hroot
      exact hroot

theorem directory_chars : b.directory.all inPath = true := by
  rw [List.all_eq_true]
  intro c hc
  exact List.all_eq_true.mp b.path_chars c ((List.rdropWhile_prefix _ _).subset hc)

/-- The slashes at the end of a base URL are those of its path. -/
theorem rdropWhile_text : b.text.rdropWhile (· = '/') = b.origin ++ b.directory := by
  have hlast : ∃ front c, b.origin = front ++ [c] ∧ ¬ decide (c = '/') = true := by
    refine ⟨b.scheme ++ ':' :: '/' :: '/' :: b.authority.dropLast,
      b.authority.getLast b.authority_ne, ?_, ?_⟩
    · unfold origin
      simp [List.dropLast_append_getLast b.authority_ne]
    · have hchar := List.all_eq_true.mp b.authority_chars _ (List.getLast_mem b.authority_ne)
      simp only [inAuthority, decide_eq_true_eq] at hchar
      simpa using hchar.1
  obtain ⟨front, c, horigin, hc⟩ := hlast
  unfold text directory
  rw [horigin]
  induction b.path using List.reverseRecOn with
  | nil =>
    have hkeep := List.rdropWhile_concat_neg (fun c => decide (c = '/')) front c hc
    rw [List.append_nil, hkeep, List.rdropWhile_nil, List.append_nil]
  | append_singleton path d ih =>
    rw [← List.append_assoc, List.rdropWhile_concat, List.rdropWhile_concat]
    split
    · exact ih
    · exact List.append_assoc _ _ _

end Base

end Url
