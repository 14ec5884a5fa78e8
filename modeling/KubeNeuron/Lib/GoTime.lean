import KubeNeuron.Lib.Civil
import Mathlib.Algebra.Group.Nat.Defs
import Mathlib.Data.List.TakeWhile
import KubeNeuron.Lib.JsonText

/-!
# Time values and their RFC 3339 text

A time value is an instant, a location, and sometimes a monotonic reading. `==` compares all three,
locations by identity. `parseRFC3339_marshalTime` says what a printed time reads back as: the
monotonic reading is lost, and the location is UTC, the local zone, a shared whole-hour zone or a
new one.
-/

namespace KubeNeuron.Lib

/-! ## Time values -/

/-- A location, as far as it can be told apart: UTC, the local zone of the process, a shared zone of
a whole number of hours, or a zone of its own at some address. -/
inductive Zone where
  | utc
  | loc
  | hours (h : Int)
  | fixed (address : Nat) (offset : Int)
  deriving DecidableEq

/-- A time value: nanoseconds since the Unix epoch, a location, and a monotonic reading. -/
structure GoTime where
  ns : Int
  zone : Zone
  mono : Option Int
  deriving DecidableEq

/-- The offset in seconds of a location at an instant in Unix seconds. -/
def Zone.offset (localOffset : Int → Int) (sec : Int) : Zone → Int
  | .utc => 0
  | .loc => localOffset sec
  | .hours h => 3600 * h
  | .fixed _ offset => offset

namespace GoTime

/-- The instant of the zero time value, 0001-01-01 00:00:00 UTC. -/
def zeroNs : Int := -62135596800000000000

def zero : GoTime := ⟨zeroNs, .utc, none⟩

/-- Whether the value is the zero instant. -/
def isZero (t : GoTime) : Bool := t.ns == zeroNs

/-- `UTC`: the same instant in UTC, without the monotonic reading. -/
def utc (t : GoTime) : GoTime := ⟨t.ns, .utc, none⟩

/-- `t` is before `u`. -/
def before (t u : GoTime) : Bool :=
  match t.mono, u.mono with
  | some a, some b => a < b
  | _, _ => t.ns < u.ns

/-- `t` and `u` are the same moment. -/
def equal (t u : GoTime) : Bool :=
  match t.mono, u.mono with
  | some a, some b => a == b
  | _, _ => t.ns == u.ns

/-- The value `d` nanoseconds later. -/
def add (t : GoTime) (d : Int) : GoTime :=
  { t with ns := t.ns + d, mono := t.mono.map (· + d) }

/-- The second the instant falls in. -/
def unixSec (t : GoTime) : Int := t.ns / 1000000000

end GoTime

/-- The time `sec` seconds after the epoch, in UTC. -/
def atSecond (sec : Int) : GoTime := ⟨sec * 1000000000, .utc, none⟩

/-! ## Digits of fixed width -/

/-- The last `w` decimal digits of `n`. -/
def fixedDigits : Nat → Nat → Str
  | 0, _ => []
  | w + 1, n => fixedDigits w (n / 10) ++ [(48 + n % 10).toUInt8]

/-- The value of a text of digits. -/
def digitsVal (s : Str) : Nat := s.foldl (fun n b => 10 * n + (b.toNat - 48)) 0

theorem length_fixedDigits (w n : Nat) : (fixedDigits w n).length = w := by
  induction w generalizing n with
  | zero => rfl
  | succ w ih => simp [fixedDigits, ih]

theorem toNat_digit (n : Nat) : ((48 + n % 10).toUInt8).toNat = 48 + n % 10 := by
  simp only [UInt8.toNat_ofNat']
  omega

theorem isDigitByte_digit (n : Nat) : isDigitByte (48 + n % 10).toUInt8 = true := by
  have h := toNat_digit n
  simp only [isDigitByte, Bool.and_eq_true, decide_eq_true_eq, UInt8.le_iff_toNat_le, h]
  exact ⟨Nat.le_add_right 48 _, show 48 + n % 10 ≤ 57 by omega⟩

theorem isDigitByte_of_mem_fixedDigits {w n : Nat} {b : UInt8} (h : b ∈ fixedDigits w n) :
    isDigitByte b = true := by
  induction w generalizing n with
  | zero => simp [fixedDigits] at h
  | succ w ih =>
    rcases List.mem_append.1 h with h | h
    · exact ih h
    · rw [List.mem_singleton.1 h]
      exact isDigitByte_digit n

theorem digitsVal_append_digit (s : Str) (n : Nat) :
    digitsVal (s ++ [(48 + n % 10).toUInt8]) = 10 * digitsVal s + n % 10 := by
  rw [digitsVal, List.foldl_append, List.foldl_cons, List.foldl_nil, toNat_digit, ← digitsVal]
  omega

theorem digitsVal_fixedDigits {w n : Nat} (h : n < 10 ^ w) : digitsVal (fixedDigits w n) = n := by
  induction w generalizing n with
  | zero =>
    have : n = 0 := by simpa using h
    simp [fixedDigits, digitsVal, this]
  | succ w ih =>
    rw [fixedDigits, digitsVal_append_digit, ih (by rw [Nat.pow_succ] at h; omega)]
    omega

/-! ## Printing -/

/-- At least four digits. -/
def yearDigits (n : Nat) : Str := if n ≤ 9999 then fixedDigits 4 n else natText n

/-- The text of a year: four digits, more when it has more, a sign when it is negative. -/
def yearText (y : Int) : Str :=
  if y < 0 then 0x2D :: yearDigits y.natAbs else yearDigits y.natAbs

/-- Drop the zeros at the end of a text. -/
def trimZeros (s : Str) : Str := (s.reverse.dropWhile (· == 0x30)).reverse

/-- The fraction of a second: nothing for zero, else the digits without the zeros at the end. -/
def fractionText (nsec : Nat) : Str :=
  if nsec = 0 then [] else 0x2E :: trimZeros (fixedDigits 9 nsec)

/-- The digits of a fraction of `10 ^ prec` parts, without trailing zeros. -/
def durationFraction (prec n : Nat) : Str :=
  match trimZeros (fixedDigits prec (n % 10 ^ prec)) with
  | [] => []
  | digits => lit "." ++ digits

/-- The text of a magnitude of a duration in nanoseconds. -/
def durationMagnitude (n : Nat) : Str :=
  if n = 0 then lit "0s"
  else if n < 1000 then natText n ++ lit "ns"
  else if n < 1000000 then natText (n / 1000) ++ durationFraction 3 n ++ lit "µs"
  else if n < 1000000000 then natText (n / 1000000) ++ durationFraction 6 n ++ lit "ms"
  else
    let seconds := n / 1000000000
    let minutes := seconds / 60
    (if minutes / 60 = 0 then [] else natText (minutes / 60) ++ lit "h") ++
      (if minutes = 0 then [] else natText (minutes % 60) ++ lit "m") ++
      natText (seconds % 60) ++ durationFraction 9 n ++ lit "s"

/-- `Duration.String`. -/
def durationText (d : Int) : Str :=
  (if d < 0 then lit "-" else []) ++ durationMagnitude d.natAbs

example : durationText 5400500000000 = lit "1h30m0.5s" := by decide +kernel

/-- The text of an offset in seconds: `Z` for zero, else a sign, hours and minutes. -/
def zoneText (offset : Int) : Str :=
  if offset = 0 then [0x5A]
  else
    let minutes := (offset.tdiv 60).natAbs
    (if offset.tdiv 60 < 0 then 0x2D else 0x2B) ::
      (fixedDigits 2 (minutes / 60) ++ 0x3A :: fixedDigits 2 (minutes % 60))

/-- The nanosecond of the day that a count of nanoseconds falls on. -/
def nanoOfDay (abs : Int) : Nat := (abs % 86400000000000).toNat

/-- The day that a count of nanoseconds falls on. -/
def dayOf (abs : Int) : Int := abs / 86400000000000

/-- Date and time of day of a count of nanoseconds. -/
def clockText (abs : Int) : Str :=
  let c := civilOfDays (dayOf abs)
  let n := nanoOfDay abs
  yearText c.year ++ 0x2D :: (fixedDigits 2 c.month.toNat ++ 0x2D :: (fixedDigits 2 c.day.toNat ++
    0x54 :: (fixedDigits 2 (n / 3600000000000) ++ 0x3A ::
      (fixedDigits 2 (n / 60000000000 % 60) ++ 0x3A ::
        (fixedDigits 2 (n / 1000000000 % 60) ++ fractionText (n % 1000000000))))))

variable (localOffset : Int → Int)

/-- The RFC 3339 text of a time value in its own location. -/
def formatRFC3339Nano (t : GoTime) : Str :=
  let offset := t.zone.offset localOffset t.unixSec
  clockText (t.ns + offset * 1000000000) ++ zoneText offset

/-- The text of a time value inside JSON; a year outside 0 to 9999 and an offset of a day or more
have none. -/
def marshalTime (t : GoTime) : Option Str :=
  let offset := t.zone.offset localOffset t.unixSec
  let year := (civilOfDays (dayOf (t.ns + offset * 1000000000))).year
  if 0 ≤ year ∧ year ≤ 9999 ∧ (offset.tdiv 60).natAbs / 60 < 24 then
    some (formatRFC3339Nano localOffset t)
  else none

theorem yearText_of_nonneg {y : Int} (h0 : 0 ≤ y) (h1 : y ≤ 9999) :
    yearText y = fixedDigits 4 y.toNat := by
  have hle : y.natAbs ≤ 9999 := by omega
  rw [yearText, if_neg (by omega), yearDigits, if_pos hle]
  congr 1
  omega

/-! ## Printed times are ASCII -/

theorem ascii_of_isDigitByte {b : UInt8} (h : isDigitByte b = true) : b < 0x80 := by
  simp only [isDigitByte, Bool.and_eq_true, decide_eq_true_eq] at h
  exact UInt8.lt_of_le_of_lt h.2 (by decide)

theorem ascii_fixedDigits (w n : Nat) : ∀ b ∈ fixedDigits w n, b < 0x80 := fun _ hb =>
  ascii_of_isDigitByte (isDigitByte_of_mem_fixedDigits hb)

theorem ascii_yearText (y : Int) : ∀ b ∈ yearText y, b < 0x80 := by
  have hdigs : ∀ n, ∀ b ∈ yearDigits n, b < 0x80 := by
    intro n b hb
    rw [yearDigits] at hb
    split_ifs at hb
    · exact ascii_fixedDigits 4 n b hb
    · exact ascii_of_isDigitByte (isDigitByte_of_mem_natText hb)
  rw [yearText]
  split_ifs
  · exact List.forall_mem_cons.2 ⟨by decide, hdigs _⟩
  · exact hdigs _

theorem ascii_fractionText (nsec : Nat) : ∀ b ∈ fractionText nsec, b < 0x80 := by
  rw [fractionText]
  split_ifs
  · simp
  refine List.forall_mem_cons.2 ⟨by decide, fun b hb => ascii_fixedDigits 9 nsec b ?_⟩
  have hs := (List.dropWhile_sublist (· == 0x30)).subset (List.mem_reverse.1 hb)
  exact List.mem_reverse.1 hs

theorem ascii_zoneText (offset : Int) : ∀ b ∈ zoneText offset, b < 0x80 := by
  rw [zoneText]
  split_ifs
  · exact List.forall_mem_singleton.2 (by decide)
  all_goals
    simp only [List.forall_mem_cons, List.forall_mem_append]
    exact ⟨by decide, ascii_fixedDigits _ _, by decide, ascii_fixedDigits _ _⟩

theorem ascii_formatRFC3339Nano (t : GoTime) :
    ∀ b ∈ formatRFC3339Nano localOffset t, b < 0x80 := by
  simp only [formatRFC3339Nano, clockText, List.forall_mem_append, List.forall_mem_cons]
  have hd := ascii_fixedDigits 2
  exact ⟨⟨ascii_yearText _, by decide, hd _, by decide, hd _, by decide, hd _, by decide,
    hd _, by decide,
    hd _, ascii_fractionText _⟩, ascii_zoneText _⟩

/-! ## Reading -/

/-- `w` digits at the head of a text with a value between `lo` and `hi`. -/
def readFixed (w lo hi : Nat) (s : Str) : Option (Nat × Str) :=
  let ds := s.take w
  if ds.length = w ∧ ds.all isDigitByte ∧ lo ≤ digitsVal ds ∧ digitsVal ds ≤ hi then
    some (digitsVal ds, s.drop w)
  else none

/-- A given byte at the head of a text. -/
def readByte (b : UInt8) : Str → Option Str
  | c :: s => if c = b then some s else none
  | [] => none

/-- The fraction of a second at the head of a text, in nanoseconds; digits after the ninth are
dropped. -/
def readFractionNs : Str → Option (Nat × Str)
  | [] => some (0, [])
  | b :: s =>
    if b = 0x2E then
      let ds := s.takeWhile isDigitByte
      if ds = [] then none
      else some (digitsVal (ds.take 9) * 10 ^ (9 - ds.length), s.dropWhile isDigitByte)
    else some (0, b :: s)

/-- Hours and minutes that end a text, in minutes. -/
def readHoursMinutes (s : Str) : Option Nat := do
  let (hh, s) ← readFixed 2 0 23 s
  let s ← readByte 0x3A s
  let (mm, s) ← readFixed 2 0 59 s
  if s = [] then some (hh * 60 + mm) else none

/-- The offset that ends a text: nothing for `Z`, else seconds. -/
def readZone : Str → Option (Option Int)
  | [] => none
  | b :: s =>
    if b = 0x5A then (if s = [] then some none else none)
    else if b = 0x2B then (readHoursMinutes s).map fun m => some ((m : Int) * 60)
    else if b = 0x2D then (readHoursMinutes s).map fun m => some (-(m : Int) * 60)
    else none

/-- The location a text with a numeric offset is given. -/
def zoneFor (address : Nat) (sec offset : Int) : Zone :=
  if localOffset sec = offset then .loc
  else if offset % 3600 = 0 ∧ -12 ≤ offset / 3600 ∧ offset / 3600 ≤ 14 then .hours (offset / 3600)
  else .fixed address offset

/-- The time value of an instant read with an offset. -/
def timeAt (address : Nat) (abs : Int) : Option Int → GoTime
  | none => ⟨abs, .utc, none⟩
  | some offset =>
    let ns := abs - offset * 1000000000
    ⟨ns, zoneFor localOffset address (ns / 1000000000) offset, none⟩

/-- Read an RFC 3339 text. A zone that has to be allocated gets the given address. -/
def parseRFC3339 (address : Nat) (s : Str) : Option GoTime := do
  let (year, s) ← readFixed 4 0 9999 s
  let s ← readByte 0x2D s
  let (month, s) ← readFixed 2 1 12 s
  let s ← readByte 0x2D s
  let (day, s) ← readFixed 2 1 (daysIn year month).toNat s
  let s ← readByte 0x54 s
  let (hour, s) ← readFixed 2 0 23 s
  let s ← readByte 0x3A s
  let (min, s) ← readFixed 2 0 59 s
  let s ← readByte 0x3A s
  let (sec, s) ← readFixed 2 0 59 s
  let (nsec, s) ← readFractionNs s
  let zone ← readZone s
  let seconds : Int := daysOfCivil ⟨year, month, day⟩ * 86400 + ((hour * 60 + min) * 60 + sec : Nat)
  some (timeAt localOffset address (seconds * 1000000000 + nsec) zone)

/-! ## Reading back what was printed -/

theorem readFixed_fixedDigits {w n lo hi : Nat} (hn : n < 10 ^ w) (hlo : lo ≤ n) (hhi : n ≤ hi)
    (s : Str) : readFixed w lo hi (fixedDigits w n ++ s) = some (n, s) := by
  have hl := length_fixedDigits w n
  have ha : (fixedDigits w n).all isDigitByte = true :=
    List.all_eq_true.2 fun b hb => isDigitByte_of_mem_fixedDigits hb
  simp only [readFixed, List.take_left' hl, List.drop_left' hl, digitsVal_fixedDigits hn, hl, ha,
    hlo, hhi, and_self, if_true]

@[simp] theorem readByte_cons (b : UInt8) (s : Str) : readByte b (b :: s) = some s := by
  simp [readByte]

theorem trimZeros_append (s : Str) : ∃ k, s = trimZeros s ++ List.replicate k 0x30 := by
  refine ⟨(s.reverse.takeWhile (· == 0x30)).length, ?_⟩
  have hzeros : s.reverse.takeWhile (· == 0x30) =
      List.replicate (s.reverse.takeWhile (· == 0x30)).length 0x30 := by
    refine List.eq_replicate_of_mem fun b hb => ?_
    simpa using List.mem_takeWhile_imp hb
  have hs := congrArg List.reverse (List.takeWhile_append_dropWhile
    (p := (· == 0x30)) (l := s.reverse))
  rw [List.reverse_reverse] at hs
  conv_lhs => rw [← hs, hzeros]
  simp [trimZeros]

theorem digitsVal_append_zeros (s : Str) (k : Nat) :
    digitsVal (s ++ List.replicate k 0x30) = digitsVal s * 10 ^ k := by
  induction k with
  | zero => simp
  | succ k ih =>
    have hz := digitsVal_append_digit (s ++ List.replicate k 0x30) 0
    rw [List.replicate_succ', ← List.append_assoc]
    refine hz.trans ?_
    rw [ih, Nat.add_zero, Nat.pow_succ, Nat.mul_comm 10, Nat.mul_assoc]

theorem readFractionNs_fractionText {nsec : Nat} (hn : nsec < 1000000000) {b : UInt8}
    (hb : isDigitByte b = false) (hdot : b ≠ 0x2E) (s : Str) :
    readFractionNs (fractionText nsec ++ b :: s) = some (nsec, b :: s) := by
  by_cases hz : nsec = 0
  · simp [fractionText, hz, readFractionNs, hdot]
  obtain ⟨k, hk⟩ := trimZeros_append (fixedDigits 9 nsec)
  have hv : digitsVal (fixedDigits 9 nsec) = nsec := digitsVal_fixedDigits (by omega)
  have hl := length_fixedDigits 9 nsec
  have hg : ∀ c ∈ fixedDigits 9 nsec, isDigitByte c = true := fun c =>
    isDigitByte_of_mem_fixedDigits
  rw [fractionText, if_neg hz]
  generalize trimZeros (fixedDigits 9 nsec) = ds at *
  rw [hk] at hv hl hg
  rw [digitsVal_append_zeros] at hv
  rw [List.length_append, List.length_replicate] at hl
  have hg : ∀ c ∈ ds, isDigitByte c = true := fun c hc => hg c (List.mem_append_left _ hc)
  have hne : ds ≠ [] := by
    rintro rfl
    simp only [digitsVal, List.foldl_nil] at hv
    omega
  have htake : (ds ++ b :: s).takeWhile isDigitByte = ds := by
    rw [List.takeWhile_append_of_pos hg]
    simp [hb]
  have hd : (ds ++ b :: s).dropWhile isDigitByte = b :: s := by
    rw [List.dropWhile_append_of_pos hg]
    simp [hb]
  rw [List.cons_append, readFractionNs, if_pos rfl]
  simp only [htake, hd, if_neg hne]
  rw [List.take_of_length_le (by omega), show 9 - ds.length = k by omega, hv]

/-- The offset as a text carries it: whole minutes, nothing for zero. -/
def printedOffset (offset : Int) : Option Int :=
  if offset = 0 then none else some (offset.tdiv 60 * 60)

theorem zoneText_head (offset : Int) :
    ∃ b s, zoneText offset = b :: s ∧ isDigitByte b = false ∧ b ≠ 0x2E := by
  rw [zoneText]
  split_ifs
  · exact ⟨_, _, rfl, by decide, by decide⟩
  · exact ⟨_, _, rfl, by decide, by decide⟩
  · exact ⟨_, _, rfl, by decide, by decide⟩

theorem readHoursMinutes_fixedDigits {m : Nat} (h : m / 60 < 24) :
    readHoursMinutes (fixedDigits 2 (m / 60) ++ 0x3A :: fixedDigits 2 (m % 60)) = some m := by
  have hhh := readFixed_fixedDigits (w := 2) (n := m / 60) (by omega) (Nat.zero_le _)
    (show _ ≤ 23 by omega) (0x3A :: fixedDigits 2 (m % 60))
  have hmm := readFixed_fixedDigits (w := 2) (n := m % 60) (by omega) (Nat.zero_le _)
    (show _ ≤ 59 by omega) []
  rw [List.append_nil] at hmm
  have hm : m / 60 * 60 + m % 60 = m := by omega
  simp only [readHoursMinutes, hhh, readByte_cons, hmm, Option.bind_eq_bind, Option.bind_some,
    if_true, hm]

theorem readZone_zoneText {offset : Int} (h : (offset.tdiv 60).natAbs / 60 < 24) :
    readZone (zoneText offset) = some (printedOffset offset) := by
  rw [zoneText, printedOffset]
  by_cases hz : offset = 0
  · rw [if_pos hz, if_pos hz]
    rfl
  rw [if_neg hz, if_neg hz]
  generalize offset.tdiv 60 = minutes at *
  obtain ⟨n, hn⟩ : ∃ n, minutes.natAbs = n := ⟨_, rfl⟩
  rw [hn] at h ⊢
  by_cases hneg : minutes < 0
  · have ha : -(n : Int) = minutes := by omega
    rw [if_pos hneg, readZone, readHoursMinutes_fixedDigits h]
    simp [← ha]
  · have ha : (n : Int) = minutes := by omega
    rw [if_neg hneg, readZone, readHoursMinutes_fixedDigits h]
    simp [ha]

theorem clock_parts (abs : Int) :
    (dayOf abs * 86400 + (((nanoOfDay abs / 3600000000000 * 60 + nanoOfDay abs / 60000000000 % 60) *
      60 + nanoOfDay abs / 1000000000 % 60 : Nat) : Int)) * 1000000000 +
        ((nanoOfDay abs % 1000000000 : Nat) : Int) = abs := by
  unfold dayOf nanoOfDay
  omega

theorem nanoOfDay_lt (abs : Int) : nanoOfDay abs < 86400000000000 := by
  unfold nanoOfDay
  omega

/-- **A printed time reads back as its instant**, in the location its offset is given. An offset
that is no whole number of minutes shifts the instant by the seconds the text leaves out. -/
theorem parseRFC3339_marshalTime {lo lo' : Int → Int} {t : GoTime} {text : Str}
    (h : marshalTime lo t = some text) (address : Nat) :
    parseRFC3339 lo' address text =
      some (timeAt lo' address (t.ns + t.zone.offset lo t.unixSec * 1000000000)
        (printedOffset (t.zone.offset lo t.unixSec))) := by
  rw [marshalTime] at h
  simp only [formatRFC3339Nano, clockText] at h
  generalize t.zone.offset lo t.unixSec = offset at *
  generalize t.ns + offset * 1000000000 = abs at *
  obtain ⟨_, _, _, hd31⟩ := civilOfDays_valid (dayOf abs)
  have hday := daysOfCivil_civilOfDays (dayOf abs)
  have hclk := clock_parts abs
  have hnano := nanoOfDay_lt abs
  generalize civilOfDays (dayOf abs) = c at *
  generalize nanoOfDay abs = n at *
  split_ifs at h with hok
  obtain ⟨hy0, hy1, hhour⟩ := hok
  cases h
  obtain ⟨_, _, hz, hbdig, hbdot⟩ := zoneText_head offset
  have hzone := readZone_zoneText hhour
  have hd31' := Int.le_trans hd31 (daysIn_le _ _)
  have hcy : c.year.toNat = c.year := Int.toNat_of_nonneg hy0
  have hcm : c.month.toNat = c.month := Int.toNat_of_nonneg (by omega)
  have hcd : c.day.toNat = c.day := Int.toNat_of_nonneg (by omega)
  rw [hz] at hzone
  simp only [yearText_of_nonneg hy0 hy1, List.append_assoc, List.cons_append, hz, parseRFC3339]
  rw [readFixed_fixedDigits (by omega) (Nat.zero_le _) (by omega)]
  simp only [Option.bind_eq_bind, Option.bind_some, readByte_cons]
  rw [readFixed_fixedDigits (by omega) (by omega) (by omega)]
  simp only [Option.bind_some, readByte_cons, hcy, hcm]
  rw [readFixed_fixedDigits (by omega) (by omega) (by omega)]
  simp only [Option.bind_some, readByte_cons]
  rw [readFixed_fixedDigits (by omega) (Nat.zero_le _) (by omega)]
  simp only [Option.bind_some, readByte_cons]
  rw [readFixed_fixedDigits (by omega) (Nat.zero_le _) (by omega)]
  simp only [Option.bind_some, readByte_cons]
  rw [readFixed_fixedDigits (by omega) (Nat.zero_le _) (by omega)]
  simp only [Option.bind_some]
  rw [readFractionNs_fractionText (by omega) hbdig hbdot]
  simp only [Option.bind_some, hzone, hcd, hday, hclk]

end KubeNeuron.Lib
