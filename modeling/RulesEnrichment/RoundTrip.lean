import RulesEnrichment.Model.OrderDecoder

/-! # Orders survive being written and read

    `datetime.fromisoformat` is the inverse of `isoformat`: a timestamp that
    is written with any separator is read back as it was
    (`fromisoformat_format`). So the decoder gets back every order that is
    written as a document (`toOrder_document`), except that naive
    timestamps come back as UTC. -/

namespace RulesEnrichment

namespace IsoFormat

open DateTime

/-! ## Digits -/

theorem digitsFrom_append (ds rest : List Char) (v : Nat) (h : ∀ c ∈ ds, c.isDigit = true) :
    digitsFrom v ds.length (ds ++ rest) = some (Nat.ofDigitChars 10 ds v, rest) := by
  induction ds generalizing v with
  | nil => simp [digitsFrom]
  | cons c ds ih =>
    show (if c.isDigit then digitsFrom (v * 10 + (c.toNat - '0'.toNat)) ds.length (ds ++ rest)
      else none) = _
    rw [if_pos (h c List.mem_cons_self), ih _ fun d hd => h d (List.mem_cons_of_mem _ hd),
      Nat.ofDigitChars_cons, Nat.mul_comm]

theorem toList_zfill (width n : Nat) :
    (zfill width n).toList =
      List.replicate (width - (Nat.toDigits 10 n).length) '0' ++ Nat.toDigits 10 n :=
  String.toList_ofList

theorem isDigit_of_mem_zfill {width n : Nat} {c : Char} (hc : c ∈ (zfill width n).toList) :
    c.isDigit = true := by
  rw [toList_zfill, List.mem_append] at hc
  rcases hc with hc | hc
  · rw [List.eq_of_mem_replicate hc]
    rfl
  · exact Nat.isDigit_of_mem_toDigits (by decide) (by decide) hc

variable {width n : Nat}

theorem length_zfill (hwidth : 0 < width) (hn : n < 10 ^ width) :
    (zfill width n).toList.length = width := by
  have hlen : (Nat.toDigits 10 n).length ≤ width :=
    (Nat.length_toDigits_le_iff (by decide) hwidth).mpr hn
  rw [toList_zfill, List.length_append, List.length_replicate]
  omega

/-- A padded number is read back, whatever follows. -/
theorem parseDigits_zfill (hwidth : 0 < width) (hn : n < 10 ^ width) (rest : List Char) :
    parseDigits width ((zfill width n).toList ++ rest) = some (n, rest) := by
  have hread := digitsFrom_append (zfill width n).toList rest 0 fun _ => isDigit_of_mem_zfill
  have hvalue : Nat.ofDigitChars 10 (zfill width n).toList 0 = n := by
    rw [toList_zfill, Nat.ofDigitChars_append, Nat.ofDigitChars_replicate_zero, Nat.mul_zero,
      Nat.ofDigitChars_ten_toDigits]
  rw [length_zfill hwidth hn, hvalue] at hread
  exact hread

/-- A number does not start with a separator. -/
theorem head_zfill (hwidth : 0 < width) (hn : n < 10 ^ width) (rest : List Char) {c : Char}
    (hc : c.isDigit = false) : ((zfill width n).toList ++ rest).head? ≠ some c := by
  intro hhead
  cases hz : (zfill width n).toList with
  | nil =>
    have hlen := length_zfill hwidth hn
    rw [hz, List.length_nil] at hlen
    omega
  | cons d ds =>
    rw [hz, List.cons_append, List.head?_cons, Option.some.injEq] at hhead
    have hdigit : d.isDigit = true := isDigit_of_mem_zfill (hz ▸ List.mem_cons_self)
    rw [hhead, hc] at hdigit
    cases hdigit

/-! ## Times -/

/-- The fraction of a second, if there is one. -/
def fractionText (us : Nat) : List Char := if us = 0 then [] else '.' :: (zfill 6 us).toList

theorem parseFraction_zfill {us : Nat} (hus : us < 1000000) :
    parseFraction (zfill 6 us).toList = some us := by
  have hne : (zfill 6 us).toList ≠ [] := by
    intro hnil
    have hlen := @length_zfill 6 us (by decide) hus
    rw [hnil, List.length_nil] at hlen
    omega
  have hall : (zfill 6 us).toList.all Char.isDigit = true :=
    List.all_eq_true.mpr fun _ => isDigit_of_mem_zfill
  unfold parseFraction
  rw [if_pos ⟨hne, hall⟩, parseDigits_zfill (by decide) hus]
  rfl

/-- `HH:MM` -/
theorem parseClock_minutes {h m : Nat} (hh : h < 100) (hm : m < 100) :
    parseClock ((zfill 2 h).toList ++ ':' :: (zfill 2 m).toList) = some ⟨h, m, 0, 0⟩ := by
  have hminute := @parseDigits_zfill 2 m (by decide) hm []
  rw [List.append_nil] at hminute
  unfold parseClock
  rw [parseDigits_zfill (by decide) hh]
  simp [skip, hminute]

/-- `HH:MM:SS`, with or without a fraction. -/
theorem parseClock_seconds {h m s us : Nat} (hh : h < 100) (hm : m < 100) (hs : s < 100)
    (hus : us < 1000000) :
    parseClock ((zfill 2 h).toList ++ ':' :: ((zfill 2 m).toList ++ ':' ::
      ((zfill 2 s).toList ++ fractionText us))) = some ⟨h, m, s, us⟩ := by
  unfold parseClock
  rw [parseDigits_zfill (by decide) hh]
  simp only [Option.bind_eq_bind, Option.bind_some, skip, List.head?_cons, List.tail_cons, if_true,
    decide_true, reduceCtorEq, if_false]
  rw [parseDigits_zfill (by decide) hm]
  simp only [Option.bind_some, List.head?_cons, List.tail_cons, if_true, reduceCtorEq, if_false]
  rw [parseDigits_zfill (by decide) hs]
  unfold fractionText
  by_cases hzero : us = 0
  · simp [hzero]
  · simp [hzero, parseFraction_zfill hus]

/-! ## Times with an offset -/

/-- The time of day as it is written. -/
def clockText (t : Clock) : List Char :=
  (zfill 2 t.hour).toList ++ ':' :: ((zfill 2 t.minute).toList ++ ':' ::
    ((zfill 2 t.second).toList ++ fractionText t.microsecond))

/-- None of its characters starts an offset. -/
theorem mem_clockText {t : Clock} {c : Char} (hc : c ∈ clockText t) :
    c ≠ '+' ∧ c ≠ '-' ∧ c ≠ 'Z' := by
  have hchars : c.isDigit = true ∨ c = ':' ∨ c = '.' := by
    unfold clockText fractionText at hc
    simp only [List.mem_append, List.mem_cons] at hc
    rcases hc with hc | hc | hc | hc | hc | hc
    · exact Or.inl (isDigit_of_mem_zfill hc)
    · exact Or.inr (Or.inl hc)
    · exact Or.inl (isDigit_of_mem_zfill hc)
    · exact Or.inr (Or.inl hc)
    · exact Or.inl (isDigit_of_mem_zfill hc)
    · split at hc
      · cases hc
      · rcases List.mem_cons.mp hc with hc | hc
        · exact Or.inr (Or.inr hc)
        · exact Or.inl (isDigit_of_mem_zfill hc)
  rcases hchars with hdigit | rfl | rfl
  · refine ⟨?_, ?_, ?_⟩ <;> (rintro rfl; cases hdigit)
  · decide
  · decide

/-- The offset starts where the time of day ends. -/
theorem span_clockText (t : Clock) {zone : List Char}
    (hzone : ∀ c, zone.head? = some c → c = '+' ∨ c = '-' ∨ c = 'Z') :
    (clockText t ++ zone).span (fun c => c ≠ '+' ∧ c ≠ '-' ∧ c ≠ 'Z') = (clockText t, zone) := by
  have hpos : ∀ c ∈ clockText t, decide (c ≠ '+' ∧ c ≠ '-' ∧ c ≠ 'Z') = true :=
    fun c hc => decide_eq_true (mem_clockText hc)
  rw [List.span_eq_takeWhile_dropWhile, List.takeWhile_append_of_pos hpos,
    List.dropWhile_append_of_pos hpos]
  cases zone with
  | nil => simp
  | cons c cs =>
    have hc := hzone c rfl
    have hneg : decide (c ≠ '+' ∧ c ≠ '-' ∧ c ≠ 'Z') = false := by
      rcases hc with rfl | rfl | rfl <;> decide
    rw [List.takeWhile_cons, List.dropWhile_cons, hneg]
    simp

/-- The ranges of a time of day, as far as reading goes. -/
def Clock.TwoDigits (t : Clock) : Prop :=
  t.hour < 100 ∧ t.minute < 100 ∧ t.second < 100 ∧ t.microsecond < 1000000

theorem parseClock_clockText {t : Clock} (ht : t.TwoDigits) :
    parseClock (clockText t) = some t :=
  parseClock_seconds ht.1 ht.2.1 ht.2.2.1 ht.2.2.2

theorem parseTime_naive {t : Clock} (ht : t.TwoDigits) :
    parseTime (clockText t) = some (t, none) := by
  have hspan := @span_clockText t [] (by simp)
  rw [List.append_nil] at hspan
  unfold parseTime
  rw [hspan]
  simp [parseClock_clockText ht]

theorem parseTime_offset {t offset : Clock} {text : List Char} (ht : t.TwoDigits)
    (hoffset : parseClock text = some offset) (negative : Bool) :
    parseTime (clockText t ++ (if negative then '-' else '+') :: text) =
      some (t, some (if negative then -(offset.micros : Int) else offset.micros)) := by
  unfold parseTime
  rw [span_clockText t (by cases negative <;> simp)]
  cases negative <;> simp [parseClock_clockText ht, hoffset]

/-! ## UTC offsets -/

theorem toList_fraction (us : Nat) :
    (if us = 0 then "" else "." ++ zfill 6 us : String).toList = fractionText us := by
  unfold fractionText
  split
  · rfl
  · rw [String.toList_append]
    rfl

/-- An offset is written as its sign and a text that is read as its size. -/
theorem offsetText_eq (us : Int) (hus : us.natAbs < dayMicros) :
    ∃ text size, (offsetText us).toList = (if us < 0 then '-' else '+') :: text ∧
      parseClock text = some size ∧ size.micros = us.natAbs := by
  unfold dayMicros at hus
  unfold offsetText
  generalize us.natAbs = a at hus
  have hhour : a / 3600000000 < 100 := by omega
  have hminute : a / 60000000 % 60 < 100 := by omega
  have hsecond : a / 1000000 % 60 < 100 := by omega
  have hmicro : a % 1000000 < 1000000 := by omega
  have hsign : (if us < 0 then "-" else "+" : String).toList = [if us < 0 then '-' else '+'] := by
    split <;> rfl
  have hcolon : ":".toList = [':'] := rfl
  by_cases hwhole : a % 60000000 = 0
  · -- whole minutes: the seconds are not written
    refine ⟨_, _, ?_, parseClock_minutes hhour hminute, ?_⟩
    · simp only [hwhole, if_true, String.toList_append, hsign, hcolon, String.toList_empty,
        List.append_nil, List.append_assoc, List.cons_append, List.nil_append]
    · simp only [Clock.micros]
      omega
  · refine ⟨_, _, ?_, parseClock_seconds hhour hminute hsecond hmicro, ?_⟩
    · simp only [hwhole, if_false, String.toList_append, hsign, hcolon, toList_fraction,
        List.append_assoc, List.cons_append, List.nil_append]
    · simp only [Clock.micros]
      omega

/-- The UTC offset, if there is one. -/
def zoneText : Option Int → List Char
  | none => []
  | some us => (offsetText us).toList

/-! ## Dates -/

/-- `YYYY-MM-DD` -/
def dateText (year month day : Nat) : List Char :=
  (zfill 4 year).toList ++ '-' :: ((zfill 2 month).toList ++ '-' :: (zfill 2 day).toList)

section date

variable {year month day : Nat}

theorem length_dateText (hy : year < 10000) (hm : month < 100) (hd : day < 100) :
    (dateText year month day).length = 10 := by
  have hyear := @length_zfill 4 year (by decide) hy
  have hmonth := @length_zfill 2 month (by decide) hm
  have hday := @length_zfill 2 day (by decide) hd
  unfold dateText
  simp only [List.length_append, List.length_cons]
  omega

theorem parseDate_dateText (hy : year < 10000) (hm : month < 100) (hd : day < 100) :
    parseDate (dateText year month day) = some (year, month, day) := by
  have hday := @parseDigits_zfill 2 day (by decide) hd []
  rw [List.append_nil] at hday
  have hhead := @head_zfill 2 month (by decide) hm ('-' :: (zfill 2 day).toList) 'W' rfl
  unfold parseDate dateText
  rw [parseDigits_zfill (by decide) hy]
  simp only [Option.bind_eq_bind, Option.bind_some, skip, List.head?_cons, List.tail_cons,
    decide_true, if_true]
  rw [if_neg hhead, parseDigits_zfill (by decide) hm]
  simp [hday]

/-- The date ends after ten characters, whatever follows. -/
theorem dateLength_dateText (hy : year < 10000) (hm : month < 100) (hd : day < 100)
    (rest : List Char) : dateLength (dateText year month day ++ rest) = some 10 := by
  have hlen := length_dateText hy hm hd
  have hyear := @length_zfill 4 year (by decide) hy
  have hhead := @head_zfill 2 month (by decide) hm ('-' :: ((zfill 2 day).toList ++ rest)) 'W' rfl
  have hdash : (dateText year month day ++ rest)[4]? = some '-' := by
    unfold dateText
    rw [List.append_assoc, List.getElem?_append_right (by omega), hyear]
    rfl
  have hweek : (dateText year month day ++ rest)[5]? ≠ some 'W' := by
    unfold dateText
    rw [List.append_assoc, List.getElem?_append_right (by omega), hyear, List.cons_append,
      List.getElem?_cons_succ, List.append_assoc, List.cons_append, ← List.head?_eq_getElem?]
    exact hhead
  have hlong : 10 ≤ (dateText year month day ++ rest).length := by
    rw [List.length_append]
    omega
  unfold dateLength
  rw [if_neg (by omega), if_neg (by omega), if_pos hdash, if_neg fun h => hweek h.1, if_neg hweek]

theorem parse_dateText (hy : year < 10000) (hm : month < 100) (hd : day < 100) (sep : Char)
    {text : List Char} {time : Clock} {offset : Option Int}
    (htime : parseTime text = some (time, offset)) :
    parse (dateText year month day ++ sep :: text) = some ((year, month, day), time, offset) := by
  have hlen := length_dateText hy hm hd
  unfold parse
  rw [dateLength_dateText hy hm hd]
  simp [← hlen, parseDate_dateText hy hm hd, htime]

end date

end IsoFormat

open IsoFormat Fallible ManhattanSimulatorHttpClient

/-! ## Reading what was written -/

theorem DateTime.ranges (d : DateTime) : d.year < 10000 ∧ d.month < 100 ∧ d.day < 100 ∧
    (Clock.mk d.hour d.minute d.second d.microsecond).TwoDigits ∧
    (d.utcoffset.getD 0).natAbs < dayMicros := by
  have hvalid := d.valid
  simp only [validDateTime, decide_eq_true_eq] at hvalid
  obtain ⟨_, hy, _, hm, _, hd, hh, hmin, hs, hus, hoff⟩ := hvalid
  have hmonth : daysInMonth d.year d.month ≤ 31 := by
    unfold daysInMonth
    split
    · split <;> omega
    · split <;> omega
  refine ⟨by omega, by omega, by omega, ⟨?_, ?_, ?_, hus⟩, hoff⟩
  · show d.hour < 100
    omega
  · show d.minute < 100
    omega
  · show d.second < 100
    omega

/-- The characters of a timestamp's text. -/
theorem toList_format (d : DateTime) {sep : String} {c : Char} (hsep : sep.toList = [c]) :
    (d.format sep).toList = dateText d.year d.month d.day ++
      c :: (clockText ⟨d.hour, d.minute, d.second, d.microsecond⟩ ++ zoneText d.utcoffset) := by
  have hdash : "-".toList = ['-'] := rfl
  have hcolon : ":".toList = [':'] := rfl
  unfold DateTime.format dateText clockText
  simp only [String.toList_append, hsep, hdash, hcolon, toList_fraction, List.append_assoc,
    List.cons_append, List.nil_append]
  cases d.utcoffset with
  | none => rfl
  | some us => rfl

/-- The time of day and the offset are read as they were written. -/
theorem parseTime_format (d : DateTime) :
    parseTime (clockText ⟨d.hour, d.minute, d.second, d.microsecond⟩ ++ zoneText d.utcoffset) =
      some (⟨d.hour, d.minute, d.second, d.microsecond⟩, d.utcoffset) := by
  obtain ⟨_, _, _, htime, hoffset⟩ := d.ranges
  cases hutc : d.utcoffset with
  | none =>
    show parseTime (clockText _ ++ []) = _
    rw [List.append_nil]
    exact parseTime_naive htime
  | some us =>
    rw [hutc, Option.getD_some] at hoffset
    obtain ⟨text, size, htext, hparse, hsize⟩ := offsetText_eq us hoffset
    have hread := parseTime_offset htime hparse (decide (us < 0))
    have hvalue : (if us < 0 then -(size.micros : Int) else size.micros) = us := by
      rw [hsize]
      split <;> omega
    simp only [decide_eq_true_eq, hvalue] at hread
    show parseTime (clockText _ ++ (DateTime.offsetText us).toList) = _
    rw [htext, hread]

/-- **Round trip**: `fromisoformat` is the inverse of `isoformat`, with any
    one character between date and time. -/
theorem fromisoformat_format (reprStr : String → String) (d : DateTime) {sep : String} {c : Char}
    (hsep : sep.toList = [c]) : DateTime.fromisoformat reprStr (d.format sep) = .ok d := by
  obtain ⟨hy, hm, hd, _⟩ := d.ranges
  have hparse : parse (d.format sep).toList = some ((d.year, d.month, d.day),
      ⟨d.hour, d.minute, d.second, d.microsecond⟩, d.utcoffset) := by
    rw [toList_format d hsep]
    exact parse_dateText hy hm hd c (parseTime_format d)
  unfold DateTime.fromisoformat
  rw [hparse]
  exact dif_pos d.valid

/-! ## The dates of a document -/

theorem not_mem_zfill (width n : Nat) : 'Z' ∉ (DateTime.zfill width n).toList := by
  intro hmem
  have hdigit := isDigit_of_mem_zfill hmem
  cases hdigit

theorem not_mem_offsetText (us : Int) : 'Z' ∉ (DateTime.offsetText us).toList := by
  unfold DateTime.offsetText
  simp only [String.toList_append, List.mem_append, not_or, not_mem_zfill, not_false_eq_true,
    and_true]
  refine ⟨⟨?_, by decide⟩, ?_⟩
  · split <;> decide
  · split
    · decide
    · simp only [String.toList_append, List.mem_append, not_or, not_mem_zfill, not_false_eq_true,
        and_true]
      refine ⟨by decide, ?_⟩
      split
      · decide
      · simp only [String.toList_append, List.mem_append, not_or, not_mem_zfill,
          not_false_eq_true, and_true]
        decide

theorem not_mem_isoformat (d : DateTime) : 'Z' ∉ d.isoformat.toList := by
  unfold DateTime.isoformat
  rw [toList_format d (show "T".toList = ['T'] from rfl)]
  unfold dateText zoneText
  simp only [List.mem_append, List.mem_cons, not_or, not_mem_zfill, not_false_eq_true, true_and]
  refine ⟨⟨by decide, by decide⟩, by decide, ?_, ?_⟩
  · intro hmem
    exact (mem_clockText hmem).2.2 rfl
  · cases d.utcoffset with
    | none => exact List.not_mem_nil
    | some us => exact not_mem_offsetText us

/-- `value.replace("Z", "+00:00")` of a text without a `Z`. -/
theorem flatMap_replace {l : List Char} (hl : 'Z' ∉ l) :
    l.flatMap (fun c => if c = 'Z' then "+00:00".toList else [c]) = l := by
  induction l with
  | nil => rfl
  | cons c l ih =>
    rw [List.mem_cons, not_or] at hl
    rw [List.flatMap_cons, if_neg (Ne.symm hl.1), ih hl.2]
    rfl

/-- The text of a timestamp is decoded to it, a naive one as UTC. -/
theorem parseDatetime_isoformat (rt : Runtime) (d : DateTime) :
    parseDatetime rt d.isoformat = .ok d.asUtc := by
  unfold parseDatetime
  rw [flatMap_replace (not_mem_isoformat d), String.ofList_toList]
  show (DateTime.fromisoformat rt.reprStr (d.format "T")).map DateTime.asUtc = _
  rw [fromisoformat_format rt.reprStr d (show "T".toList = ['T'] from rfl)]
  rfl

/-! ## Orders as documents -/

def Address.document (a : Address) : AddressDocument where
  name := some a.name
  addressLine1 := some a.addressLine1
  city := some a.city
  postalCode := some a.postalCode
  countryCode := some a.countryCode

def ExternalOrderLine.document (l : ExternalOrderLine) : LineDocument where
  lineNumber := some l.lineNumber
  sku := some l.sku
  description := some l.description
  quantity := some l.quantity
  uom := some l.uom
  unitWeightKg := some l.unitWeightKg
  unitVolumeM3 := some l.unitVolumeM3
  hazmatFlag := some l.hazmatFlag
  temperatureClass := some l.temperatureClass

/-- The document that has all members of the order and no others. -/
def ExternalOrder.document (o : ExternalOrder) : OrderDocument where
  orderId := some o.orderId
  clientCode := some o.clientCode
  facilityCode := some o.facilityCode
  zoneCode := o.zoneCode
  orderType := some o.orderType
  priority := some o.priority
  status := some o.status
  sourceAddress := some o.sourceAddress.document
  destinationAddress := some o.destinationAddress.document
  totalWeightKg := some o.totalWeightKg
  totalVolumeM3 := some o.totalVolumeM3
  lines := some (o.lines.map ExternalOrderLine.document)
  createdAt := some o.createdAt.isoformat
  updatedAt := some o.updatedAt.isoformat

theorem toAddress_document (a : Address) : a.document.toAddress = .ok a := rfl

theorem toLine_document (lines : List ExternalOrderLine) :
    (lines.map ExternalOrderLine.document).mapM toLine = .ok lines := by
  rw [mapM_eq_ok, List.forall₂_map_left_iff, List.forall₂_same]
  intro line _
  rfl

/-- **Round trip of orders**: the document of an order is decoded to it. -/
theorem toOrder_document (rt : Runtime) (o : ExternalOrder) :
    toOrder rt o.document =
      .ok { o with createdAt := o.createdAt.asUtc, updatedAt := o.updatedAt.asUtc } := by
  unfold toOrder ExternalOrder.document
  simp only [member, ok_bind, Option.getD_some, toAddress_document, toLine_document,
    parseDatetime_isoformat]
  rfl

end RulesEnrichment
