import Bookkeeping.Proofs.Text.Digits
import Bookkeeping.Time.Reading
import Bookkeeping.Time.Writing

/-! A moment is read back from its text, to the nanosecond and with its leap second. -/
namespace Bookkeeping.Moment

open Text (fixedDigits digits)

theorem isBlank_of_isDigit {c : Char} (h : Text.isDigit c = true) : Text.isBlank c = false := by
  have := Text.isDigit_iff.1 h
  simp [Text.isBlank, Text.blankRanges]
  omega

theorem trimStart_cons {c : Char} (rest : List Char) (h : Text.isBlank c = false) :
    Text.trimStart (c :: rest) = c :: rest := by
  simp [Text.trimStart, h]

theorem trimStart_digits {ds : List Char} (rest : List Char) (hne : ds ≠ [])
    (hd : ∀ c ∈ ds, Text.isDigit c = true) : Text.trimStart (ds ++ rest) = ds ++ rest := by
  obtain ⟨c, cs, rfl⟩ := List.exists_cons_of_ne_nil hne
  exact trimStart_cons _ (isBlank_of_isDigit (hd c List.mem_cons_self))

theorem takeWhile_take_append {most : Nat} {ds rest : List Char}
    (hd : ∀ c ∈ ds, Text.isDigit c = true) (hm : ds.length ≤ most)
    (hr : ds.length = most ∨ ∀ c ∈ rest.head?, Text.isDigit c = false) :
    ((ds ++ rest).take most).takeWhile Text.isDigit = ds := by
  rw [List.take_append, List.take_of_length_le hm]
  apply Text.takeWhile_isDigit_append hd
  intro c hc
  rcases hr with hr | hr
  · simp [hr] at hc
  · rw [List.head?_take] at hc
    split at hc
    · simp at hc
    · exact hr c hc

theorem number_append {most : Nat} {ds rest : List Char} (hne : ds ≠ [])
    (hd : ∀ c ∈ ds, Text.isDigit c = true) (hm : ds.length ≤ most)
    (hr : ds.length = most ∨ ∀ c ∈ rest.head?, Text.isDigit c = false) :
    number most (ds ++ rest) = .ok (Text.digitsValue ds, rest) := by
  have htake := takeWhile_take_append hd hm hr
  obtain ⟨c, cs, rfl⟩ := List.exists_cons_of_ne_nil hne
  unfold number
  simp only [htake]
  simp

theorem field_fixedDigits {least greatest n : Nat} (rest : List Char) (hl : least ≤ n)
    (hg : n ≤ greatest) (h : n < 100) :
    field least greatest (fixedDigits 2 n ++ rest) = .ok (n, rest) := by
  have hd {c : Char} (hc : c ∈ fixedDigits 2 n) := Text.isDigit_of_mem_fixedDigits hc
  have hlen : (fixedDigits 2 n).length = 2 := Text.fixedDigits_length 2 n
  have hne : fixedDigits 2 n ≠ [] := by intro hnil; simp [hnil] at hlen
  have hval : Text.digitsValue (fixedDigits 2 n) = n := by
    rw [Text.digitsValue_fixedDigits]
    exact Nat.mod_eq_of_lt h
  rw [field, trimStart_digits _ hne (fun c hc => hd hc),
    number_append hne (fun c hc => hd hc) (by omega) (.inl hlen), hval]
  simp [bind, Except.bind, hl, hg]

theorem separator_cons {c : Char} (rest : List Char) (h : Text.isBlank c = false) :
    separator c (c :: rest) = .ok ((), rest) := by
  simp [separator, trimStart_cons rest h]

theorem yearField_yearChars {y : Int} (rest : List Char) (hy : Calendar.minYear ≤ y)
    (hy' : y ≤ Calendar.maxYear) :
    yearField (Date.yearChars y ++ '-' :: rest) = .ok (y, '-' :: rest) := by
  have hrest : ∀ c ∈ ('-' :: rest).head?, Text.isDigit c = false := by simp [Text.isDigit]
  have hrange : -2147483648 ≤ y ∧ y ≤ 2147483647 := by
    simp only [Calendar.minYear, Calendar.maxYear] at hy hy'
    omega
  unfold Date.yearChars
  by_cases hplain : 0 ≤ y ∧ y ≤ 9999
  · rw [if_pos hplain]
    have hlen : (fixedDigits 4 y.toNat).length = 4 := Text.fixedDigits_length ..
    have hne : fixedDigits 4 y.toNat ≠ [] := by intro hnil; simp [hnil] at hlen
    have hd : ∀ c ∈ fixedDigits 4 y.toNat, Text.isDigit c = true :=
      fun c hc => Text.isDigit_of_mem_fixedDigits hc
    have hval : Text.digitsValue (fixedDigits 4 y.toNat) = y.toNat := by
      rw [Text.digitsValue_fixedDigits]
      exact Nat.mod_eq_of_lt (by omega)
    have hnum : number 4 (fixedDigits 4 y.toNat ++ '-' :: rest) = .ok (y.toNat, '-' :: rest) := by
      rw [number_append hne hd (Nat.le_of_eq hlen) (.inl hlen), hval]
    have hyn : ((y.toNat : Nat) : Int) = y := by omega
    rw [yearField, trimStart_digits _ hne hd]
    obtain ⟨c, cs, hcs⟩ := List.exists_cons_of_ne_nil hne
    have hc := hd c (hcs ▸ List.mem_cons_self)
    rw [hcs, List.cons_append] at hnum ⊢
    split
    · simp_all [Text.isDigit]
    · simp_all [Text.isDigit]
    · simp [bind, Except.bind, pure, Except.pure, hnum, hyn, hrange]
  · rw [if_neg hplain]
    generalize hds : (if y.natAbs < 10000 then fixedDigits 4 y.natAbs else digits y.natAbs) = ds
    have hd : ∀ c ∈ ds, Text.isDigit c = true := by
      intro c hc
      rw [← hds] at hc
      split at hc
      · exact Text.isDigit_of_mem_fixedDigits hc
      · exact Text.isDigit_of_mem_digits hc
    have hne : ds ≠ [] := by
      rw [← hds]
      split
      · intro hnil
        have := Text.fixedDigits_length 4 y.natAbs
        simp [hnil] at this
      · exact Text.digits_ne_nil _
    have hval : Text.digitsValue ds = y.natAbs := by
      rw [← hds]
      split
      · rw [Text.digitsValue_fixedDigits]
        exact Nat.mod_eq_of_lt (by omega)
      · exact Text.digitsValue_digits _
    have hnum : number (ds ++ '-' :: rest).length (ds ++ '-' :: rest) =
        .ok (y.natAbs, '-' :: rest) := by
      rw [number_append hne hd (by simp) (.inr hrest), hval]
    by_cases hneg : y < 0
    · have hyn : -((y.natAbs : Nat) : Int) = y := by omega
      rw [if_pos hneg, List.cons_append, yearField, trimStart_cons _ (by decide)]
      simp only [hnum, bind, Except.bind, pure, Except.pure, hyn, hrange, and_self, if_true]
    · have hyn : ((y.natAbs : Nat) : Int) = y := by omega
      rw [if_neg hneg, List.cons_append, yearField, trimStart_cons _ (by decide)]
      simp only [hnum, bind, Except.bind, pure, Except.pure, hyn, hrange, and_self, if_true]

theorem fraction_fixedDigits {width n : Nat} (rest : List Char) (hw : 0 < width) (hw' : width ≤ 9)
    (hn : n < 10 ^ width) (hr : ∀ c ∈ rest.head?, Text.isDigit c = false) :
    fraction ('.' :: fixedDigits width n ++ rest) = .ok (n * tenTo (9 - width), rest) := by
  have hlen : (fixedDigits width n).length = width := Text.fixedDigits_length ..
  have hd : ∀ c ∈ fixedDigits width n, Text.isDigit c = true :=
    fun c hc => Text.isDigit_of_mem_fixedDigits hc
  have hne : fixedDigits width n ≠ [] := by intro hnil; simp [hnil] at hlen; omega
  have hval : Text.digitsValue (fixedDigits width n) = n := by
    rw [Text.digitsValue_fixedDigits]
    exact Nat.mod_eq_of_lt hn
  have hnum : number 9 (fixedDigits width n ++ rest) = .ok (n, rest) := by
    rw [number_append hne hd (by omega) (.inr hr), hval]
  have htake : ((fixedDigits width n ++ rest).take 9).takeWhile Text.isDigit =
      fixedDigits width n := takeWhile_take_append hd (by omega) (.inr hr)
  have hdrop : rest.dropWhile Text.isDigit = rest := by
    cases rest with
    | nil => rfl
    | cons c rest => simp [hr c rfl]
  rw [List.cons_append, fraction]
  simp only [htake, hlen, hnum, bind, Except.bind, hdrop]

/-- What may stand at the end of a text for universal time: it is read so, and nothing of it is
taken for a part of the fraction. -/
structure Zone (zone : List Char) : Prop where
  digit : ∀ c ∈ zone.head?, Text.isDigit c = false
  fraction : fraction zone = .ok (0, zone)
  offset : offset (Text.trimStart zone) = .ok (0, [])

theorem zone_letter : Zone ['Z'] := ⟨by simp [Text.isDigit], rfl, rfl⟩

theorem zone_offset : Zone "+00:00".toList := ⟨by simp [Text.isDigit], rfl, rfl⟩

theorem fraction_fractionChars {zone : List Char} (hz : Zone zone) {n : Nat} (hn : n < 1000000000) :
    fraction (fractionChars n ++ zone) = .ok (n, zone) := by
  unfold fractionChars
  split
  · next h =>
    rw [h]
    exact hz.fraction
  split
  · next h =>
    rw [fraction_fixedDigits zone (by decide) (by decide) (by omega) hz.digit]
    have : n / 1000000 * tenTo (9 - 3) = n := by
      have : tenTo (9 - 3) = 1000000 := by decide
      rw [this]; omega
    rw [this]
  split
  · next h =>
    rw [fraction_fixedDigits zone (by decide) (by decide) (by omega) hz.digit]
    have : n / 1000 * tenTo (9 - 6) = n := by
      have : tenTo (9 - 6) = 1000 := by decide
      rw [this]; omega
    rw [this]
  · rw [fraction_fixedDigits zone (by decide) (by decide) (by omega) hz.digit]
    have : n * tenTo (9 - 9) = n := Nat.mul_one n
    rw [this]

theorem shifted_zero (m : Moment) : m.shifted 0 = some m := by
  have hs := m.second_lt
  have h₁ : ¬ ((m.second : Int) + 60 * 0 < 0) := by omega
  have h₂ : ¬ (86400 ≤ (m.second : Int) + 60 * 0) := by omega
  have h₃ : (((m.second : Int) + 60 * 0) % 86400).toNat = m.second := by omega
  simp only [shifted, h₁, h₂, if_false, Option.bind_some, h₃]
  rw [dif_pos ⟨hs, m.nano_lt⟩]

theorem day_le (d : Date) : d.day ≤ 31 := by
  have h : Calendar.daysInMonth d.year d.month ≤ 31 := by
    unfold Calendar.daysInMonth
    split <;> (try split) <;> decide
  exact Nat.le_trans d.day_range.2 h

theorem chars_append (m : Moment) (zone : List Char) :
    m.date.chars ++ 'T' :: m.timeChars ++ zone =
      Date.yearChars m.date.year ++ '-' :: (fixedDigits 2 m.date.month ++
      '-' :: (fixedDigits 2 m.date.day ++ 'T' :: (fixedDigits 2 (m.second / 3600) ++
      ':' :: (fixedDigits 2 (m.second / 60 % 60) ++ ':' :: (fixedDigits 2 m.secondOfMinute ++
      (fractionChars (m.nano % 1000000000) ++ zone)))))) := by
  simp [Date.chars, timeChars]

/-- Either the second is an ordinary one, or the leap second at the end of its minute. -/
theorem second_cases (m : Moment) :
    m.nano < 1000000000 ∧ m.secondOfMinute = m.second % 60 ∨
      1000000000 ≤ m.nano ∧ m.nano < 2000000000 ∧ m.second % 60 = 59 ∧ m.secondOfMinute = 60 := by
  have hn := m.nano_lt
  unfold secondOfMinute
  split at hn <;> omega

theorem ofChars_zone (m : Moment) {zone : List Char} (hz : Zone zone) :
    ofChars (m.date.chars ++ 'T' :: m.timeChars ++ zone) = .ok m := by
  have hs := m.second_lt
  have hsec := second_cases m
  have hyear := yearField_yearChars (fixedDigits 2 m.date.month ++
    '-' :: (fixedDigits 2 m.date.day ++ 'T' :: (fixedDigits 2 (m.second / 3600) ++
    ':' :: (fixedDigits 2 (m.second / 60 % 60) ++ ':' :: (fixedDigits 2 m.secondOfMinute ++
    (fractionChars (m.nano % 1000000000) ++ zone)))))) m.date.year_range.1 m.date.year_range.2
  have hmonth := m.date.month_range
  have hday := m.date.day_range.1
  have hday' := day_le m.date
  have hsecond : 3600 * (m.second / 3600) + 60 * (m.second / 60 % 60) + min m.secondOfMinute 59 =
      m.second := by omega
  have hnano : m.nano % 1000000000 + (if m.secondOfMinute = 60 then 1000000000 else 0) =
      m.nano := by split <;> omega
  rw [ofChars, chars_append, hyear]
  simp only [bind, Except.bind, separator_cons _ (show Text.isBlank '-' = false by decide),
    separator_cons _ (show Text.isBlank ':' = false by decide),
    field_fixedDigits _ hmonth.1 hmonth.2 (by omega), field_fixedDigits _ hday hday' (by omega),
    field_fixedDigits _ (Nat.zero_le _) (show m.second / 3600 ≤ 23 by omega) (by omega),
    field_fixedDigits _ (Nat.zero_le _) (show m.second / 60 % 60 ≤ 59 by omega) (by omega),
    field_fixedDigits _ (Nat.zero_le _) (show m.secondOfMinute ≤ 60 by omega) (by omega),
    fraction_fractionChars hz (Nat.mod_lt m.nano (show 0 < 1000000000 by decide)), hz.offset,
    Date.ofParts?_self, hsecond, hnano]
  have hvalid : m.second < 86400 ∧ m.nano < if m.second % 60 = 59 then 2000000000 else 1000000000 :=
    ⟨hs, m.nano_lt⟩
  simp [Text.trimStart, dif_pos hvalid, shifted_zero]

theorem ofChars_chars (m : Moment) : ofChars m.chars = .ok m := m.ofChars_zone zone_letter

theorem ofChars_offsetText (m : Moment) : ofChars m.offsetText.toList = .ok m := by
  rw [offsetText, String.toList_ofList]
  exact m.ofChars_zone zone_offset

end Bookkeeping.Moment
