import OpenKernel.CalendarTime

/-!
# The real-time clock

`read_rtc` of `src/rtc.rs` waits until no update is in progress, reads six time
registers and status register B and converts what it read.  `Phase` is where a
call stands; each of its steps is one port read.  `fromRegisters` is the
conversion, with the machine operations of the source, none of which overflows.

The registers hold a time in one of four formats, by two bits of register B
(`timeRegister`).  The conversion gives the time back in all of them but for
the hours 0 and 12 of a 12-hour clock (`read_rtc_exact_iff`).
-/

namespace OpenKernel
namespace Time

section Conversion

/-- What is read, by register number. -/
abbrev Cmos := UInt8 → UInt8

structure RtcTime where
  year : UInt16
  month : UInt8
  day : UInt8
  hour : UInt8
  minute : UInt8
  second : UInt8
deriving DecidableEq

/-- `(v & 0x0F) + ((v / 16) * 10)`. -/
def bcdToBinary (v : UInt8) : UInt8 :=
  (v &&& 0x0F) + (v / 16) * 10

/-- The same in `u16`, for the year. -/
def bcdToBinary16 (v : UInt16) : UInt16 :=
  (v &&& 0x0F) + (v / 16) * 10

/-- The hour keeps its PM bit. -/
def bcdHour (hour : UInt8) : UInt8 :=
  ((hour &&& 0x0F) + ((hour &&& 0x70) / 16) * 10) ||| (hour &&& 0x80)

/-- The 12-hour clock to the 24-hour clock. -/
def hour24 (register_b hour : UInt8) : UInt8 :=
  if register_b &&& 0x02 = 0 ∧ hour &&& 0x80 ≠ 0 then
    ((hour &&& 0x7F) + 12) % 24
  else
    hour

/-- What `read_rtc` makes of the registers. -/
def fromRegisters
    (second minute hour day month year register_b : UInt8) : RtcTime :=
  if register_b &&& 0x04 = 0 then
    { year := bcdToBinary16 year.toUInt16 + 2000
      month := bcdToBinary month
      day := bcdToBinary day
      hour := hour24 register_b (bcdHour hour)
      minute := bcdToBinary minute
      second := bcdToBinary second }
  else
    { year := year.toUInt16 + 2000
      month := month
      day := day
      hour := hour24 register_b hour
      minute := minute
      second := second }

end Conversion

section Calls

/-- The registers in the order they are read in. -/
def REGISTERS : List UInt8 :=
  [0x00, 0x02, 0x04, 0x07, 0x08, 0x09, 0x0B]

/-- Where a call of `read_rtc` stands. -/
inductive Phase where
  | polling
  /-- The values read and the registers still to be read. -/
  | reading (taken todo : List UInt8)
deriving DecidableEq

/-- `get_update_in_progress_flag() != 0`. -/
def updateInProgress (cmos : Cmos) : Prop :=
  cmos 0x0A &&& 0x80 ≠ 0

instance : DecidablePred updateInProgress :=
  fun _ => inferInstanceAs (Decidable (_ ≠ _))

namespace Phase

/-- The next port read of the call. -/
def step (cmos : Cmos) : Phase → Phase
  | polling => if updateInProgress cmos then polling else reading [] REGISTERS
  | reading taken (reg :: todo) => reading (taken ++ [cmos reg]) todo
  | reading taken [] => reading taken []

/-- What the call returns, once all registers are read. -/
def result : Phase → Option RtcTime
  | reading [second, minute, hour, day, month, year, register_b] [] =>
      some (fromRegisters second minute hour day month year register_b)
  | _ => none

end Phase

/-- A call of `read_rtc`, by what the CMOS holds at each of its port reads. -/
def readRtc (cmos : List Cmos) : Option RtcTime :=
  (cmos.foldl (fun phase c => Phase.step c phase) Phase.polling).result

end Calls

section Encoding

/-- A field as it stands in a register. -/
def encodeField (register_b : UInt8) (v : Nat) : UInt8 :=
  if register_b &&& 0x04 = 0 then
    UInt8.ofNat (v / 10 * 16 + v % 10)
  else
    UInt8.ofNat v

/-- A 12-hour clock writes 12 for the hours 0 and 12 and sets bit 7 from noon on. -/
def encodeHour (register_b : UInt8) (hour : Nat) : UInt8 :=
  if register_b &&& 0x02 = 0 then
    encodeField register_b (if hour % 12 = 0 then 12 else hour % 12) |||
      (if 12 ≤ hour then 0x80 else 0)
  else
    encodeField register_b hour

/-- The time registers and register B of a clock that shows a time. -/
def timeRegister (register_b : UInt8) (t : DateTime) (reg : UInt8) : UInt8 :=
  match reg with
  | 0x00 => encodeField register_b t.second
  | 0x02 => encodeField register_b t.minute
  | 0x04 => encodeHour register_b t.hour
  | 0x07 => encodeField register_b t.day
  | 0x08 => encodeField register_b t.month
  | 0x09 => encodeField register_b (t.year % 100)
  | 0x0B => register_b
  | _ => 0

/-- The CMOS of a clock that shows a time. -/
def clockCmos (register_b : UInt8) (updating : Bool) (t : DateTime) : Cmos :=
  fun reg =>
    if reg = 0x0A then
      if updating then 0xA6 else 0x26
    else
      timeRegister register_b t reg

def DateTime.toRtcTime (t : DateTime) : RtcTime where
  year := UInt16.ofNat t.year
  month := UInt8.ofNat t.month
  day := UInt8.ofNat t.day
  hour := UInt8.ofNat t.hour
  minute := UInt8.ofNat t.minute
  second := UInt8.ofNat t.second

end Encoding

section Inversion

variable {register_b : UInt8} {v : Nat}

/-- The sums and products of the conversion are exact. -/
theorem toNat_bcdToBinary
    (b : UInt8) :
    (bcdToBinary b).toNat = b.toNat % 16 + b.toNat / 16 * 10 := by
  have hlt := b.toNat_lt
  have hmask : (b &&& 0x0F).toNat = b.toNat % 16 :=
    Nat.and_two_pow_sub_one_eq_mod b.toNat 4
  rw [bcdToBinary, UInt8.toNat_add, UInt8.toNat_mul, UInt8.toNat_div, hmask]
  simp only [UInt8.reduceToNat]
  omega

theorem toNat_bcdToBinary16
    (b : UInt8) :
    (bcdToBinary16 b.toUInt16).toNat = b.toNat % 16 + b.toNat / 16 * 10 := by
  have hlt := b.toNat_lt
  have hmask : (b.toUInt16 &&& 0x0F).toNat = b.toNat % 16 :=
    Nat.and_two_pow_sub_one_eq_mod b.toNat 4
  rw [bcdToBinary16, UInt16.toNat_add, UInt16.toNat_mul, UInt16.toNat_div, hmask]
  simp only [UInt16.reduceToNat, UInt8.toNat_toUInt16]
  omega

/-- The value of two BCD digits. -/
theorem bcd_value
    (hv : v < 100) :
    (UInt8.ofNat (v / 10 * 16 + v % 10)).toNat % 16 +
      (UInt8.ofNat (v / 10 * 16 + v % 10)).toNat / 16 * 10 = v := by
  have hfits : v / 10 * 16 + v % 10 < 2 ^ 8 := by omega
  rw [UInt8.toNat_ofNat', Nat.mod_eq_of_lt hfits]
  omega

theorem bcdToBinary_encoded
    (hv : v < 100) :
    bcdToBinary (UInt8.ofNat (v / 10 * 16 + v % 10)) = UInt8.ofNat v := by
  apply UInt8.toNat_inj.1
  rw [toNat_bcdToBinary, bcd_value hv, UInt8.toNat_ofNat', Nat.mod_eq_of_lt (by omega)]

theorem year_encoded
    (hv : v < 100) :
    bcdToBinary16 (UInt8.ofNat (v / 10 * 16 + v % 10)).toUInt16 + 2000 =
      UInt16.ofNat (2000 + v) := by
  apply UInt16.toNat_inj.1
  rw [UInt16.toNat_add, toNat_bcdToBinary16, bcd_value hv, UInt16.toNat_ofNat', Nat.add_comm]
  rfl

theorem year_encoded_binary
    (hv : v < 100) :
    (UInt8.ofNat v).toUInt16 + 2000 = UInt16.ofNat (2000 + v) := by
  apply UInt16.toNat_inj.1
  rw [UInt16.toNat_add, UInt8.toNat_toUInt16, UInt8.toNat_ofNat', UInt16.toNat_ofNat']
  simp only [UInt16.reduceToNat]
  omega

/-- The hours that are converted back. -/
theorem hour_encoded
    {hour : Nat}
    (hhour : hour < 24) :
    hour24 register_b
        (if register_b &&& 0x04 = 0 then bcdHour (encodeHour register_b hour)
          else encodeHour register_b hour) = UInt8.ofNat hour ↔
      register_b &&& 0x02 ≠ 0 ∨ hour % 12 ≠ 0 := by
  by_cases hbcd : register_b &&& 0x04 = 0
  · by_cases h12 : register_b &&& 0x02 = 0
    · simp only [hour24, encodeHour, encodeField, hbcd, h12, if_true, true_and]
      revert hour
      decide
    · simp only [hour24, encodeHour, encodeField, hbcd, h12, if_true, if_false, false_and, ne_eq,
        not_false_iff, true_or, iff_true]
      revert hour
      decide
  · by_cases h12 : register_b &&& 0x02 = 0
    · simp only [hour24, encodeHour, encodeField, hbcd, h12, if_true, if_false, true_and]
      revert hour
      decide
    · simp [hour24, encodeHour, encodeField, hbcd, h12]

/-- A time that only the hour can spoil. -/
theorem toRtcTime_eq_iff
    {t : DateTime} {time : RtcTime}
    (hyear : time.year = UInt16.ofNat t.year)
    (hmonth : time.month = UInt8.ofNat t.month)
    (hday : time.day = UInt8.ofNat t.day)
    (hminute : time.minute = UInt8.ofNat t.minute)
    (hsecond : time.second = UInt8.ofNat t.second) :
    time = t.toRtcTime ↔ time.hour = UInt8.ofNat t.hour := by
  cases time
  simp_all [DateTime.toRtcTime]

/-- The conversion of the registers of a clock that shows a time. -/
theorem fromRegisters_eq_iff
    (register_b : UInt8) (t : DateTime) :
    fromRegisters (encodeField register_b t.second) (encodeField register_b t.minute)
        (encodeHour register_b t.hour) (encodeField register_b t.day)
        (encodeField register_b t.month) (encodeField register_b (t.year % 100)) register_b =
      t.toRtcTime ↔
    register_b &&& 0x02 ≠ 0 ∨ t.hour % 12 ≠ 0 := by
  obtain ⟨hfrom, hto⟩ := t.year_range
  have hyear : 2000 + t.year % 100 = t.year := by omega
  have hshort : t.year % 100 < 100 := Nat.mod_lt _ (by decide)
  have hmonth := t.month_range.2
  have hday := t.day_le
  have hminute := t.minute_lt
  have hsecond := t.second_lt
  have hhour := @hour_encoded register_b t.hour t.hour_lt
  by_cases hbcd : register_b &&& 0x04 = 0
  · rw [if_pos hbcd] at hhour
    rw [← hhour, toRtcTime_eq_iff]
    all_goals simp only [fromRegisters, encodeField, hbcd, if_true]
    · rw [year_encoded hshort, hyear]
    all_goals exact bcdToBinary_encoded (by omega)
  · rw [if_neg hbcd] at hhour
    rw [← hhour, toRtcTime_eq_iff]
    all_goals simp only [fromRegisters, encodeField, hbcd, if_false]
    rw [year_encoded_binary hshort, hyear]

end Inversion

section Decoding

variable {register_b : UInt8} {t : DateTime}

/-- The registers that a call reads hold the time, whatever the flag is. -/
theorem clockCmos_of_mem
    {updating : Bool} {reg : UInt8}
    (h : reg ∈ REGISTERS) :
    clockCmos register_b updating t reg = timeRegister register_b t reg := by
  have hne : reg ≠ 0x0A := by
    rintro rfl
    simp [REGISTERS] at h
  exact if_neg hne

/-- While an update is in progress the call polls. -/
theorem foldl_step_busy
    {busy : List Cmos}
    (h : ∀ cmos ∈ busy, updateInProgress cmos) :
    busy.foldl (fun phase c => Phase.step c phase) Phase.polling = Phase.polling := by
  induction busy with
  | nil => rfl
  | cons cmos busy ih =>
      have hfirst : Phase.step cmos .polling = .polling := if_pos (h cmos (by simp))
      rw [List.foldl_cons, hfirst]
      exact ih (fun c hc => h c (List.mem_cons_of_mem cmos hc))

/-- Registers that do not change are read one by one. -/
theorem foldl_step_reading
    {value : UInt8 → UInt8} {reads : List Cmos} {todo : List UInt8}
    (taken : List UInt8)
    (hlength : reads.length = todo.length)
    (hvalue : ∀ cmos ∈ reads, ∀ reg ∈ todo, cmos reg = value reg) :
    reads.foldl (fun phase c => Phase.step c phase) (.reading taken todo) =
      .reading (taken ++ todo.map value) [] := by
  induction todo generalizing taken reads with
  | nil =>
      obtain rfl : reads = [] := List.length_eq_zero_iff.1 hlength
      simp
  | cons reg todo ih =>
      cases reads with
      | nil => simp at hlength
      | cons cmos reads =>
          have hfirst : cmos reg = value reg := hvalue cmos (by simp) reg (by simp)
          have hlength' : reads.length = todo.length := by simpa using hlength
          rw [List.foldl_cons, Phase.step, hfirst, ih _ hlength'
            (fun c hc r hr => hvalue c (by simp [hc]) r (by simp [hr]))]
          simp

/-- The values of a clock that shows one time are converted together. -/
theorem result_of_timeRegister :
    Phase.result (.reading (REGISTERS.map (timeRegister register_b t)) []) =
      some (fromRegisters (encodeField register_b t.second) (encodeField register_b t.minute)
        (encodeHour register_b t.hour) (encodeField register_b t.day)
        (encodeField register_b t.month) (encodeField register_b (t.year % 100)) register_b) :=
  rfl

def noon : DateTime :=
  { DateTime.midnight 2024 6 15 (by decide) (by decide) (by decide) with
    hour := 12
    hour_lt := by decide }

/--
A call that reads the registers of a clock that stands still returns, and what
it returns is the time shown iff the clock is a 24-hour one or the hour is
neither 0 nor 12.
-/
theorem read_rtc_exact_iff
    (register_b : UInt8) (t : DateTime)
    (busy : List Cmos) (idle : Cmos) (reads : List Cmos)
    (hbusy : ∀ cmos ∈ busy, updateInProgress cmos)
    (hidle : ¬ updateInProgress idle)
    (hlength : reads.length = REGISTERS.length)
    (hholds : ∀ cmos ∈ reads, ∀ reg ∈ REGISTERS, cmos reg = timeRegister register_b t reg) :
    readRtc (busy ++ idle :: reads) = some t.toRtcTime ↔
      register_b &&& 0x02 ≠ 0 ∨ t.hour % 12 ≠ 0 := by
  have hstart : Phase.step idle .polling = .reading [] REGISTERS := if_neg hidle
  rw [← fromRegisters_eq_iff, readRtc, List.foldl_append, foldl_step_busy hbusy,
    List.foldl_cons, hstart, foldl_step_reading [] hlength hholds, List.nil_append,
    result_of_timeRegister, Option.some_inj]

/-- A 24-hour clock at noon is read right. -/
theorem read_rtc_exact_iff_noon :
    readRtc (List.replicate 8 (clockCmos 0x02 false noon)) = some noon.toRtcTime :=
  (read_rtc_exact_iff 0x02 noon [] (clockCmos 0x02 false noon)
    (List.replicate 7 (clockCmos 0x02 false noon)) (by simp) (by decide) rfl
    (fun cmos hcmos reg hreg => by
      rw [List.eq_of_mem_replicate hcmos, clockCmos_of_mem hreg])).2 (Or.inl (by decide))

/-- On a 12-hour clock noon is read as midnight. -/
theorem read_rtc_noon :
    ¬ updateInProgress (clockCmos 0x00 false noon) ∧
    (∀ reg ∈ REGISTERS, clockCmos 0x00 false noon reg = timeRegister 0x00 noon reg) ∧
    readRtc (List.replicate 8 (clockCmos 0x00 false noon)) =
      some { noon.toRtcTime with hour := 0 } ∧
    readRtc (List.replicate 8 (clockCmos 0x00 false noon)) ≠ some noon.toRtcTime :=
  ⟨by decide, fun _ hreg => clockCmos_of_mem hreg, by decide, by decide⟩

end Decoding

end Time
end OpenKernel
