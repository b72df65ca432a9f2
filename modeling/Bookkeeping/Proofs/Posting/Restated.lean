import Bookkeeping.Proofs.Json.Origin
import Bookkeeping.Proofs.Posting.RoundTrip

/-! Records that are read, written and read again. What is written is accepted and spells the same
value, but for the sign of a zero; what is written of that stays as it is for ever. -/
namespace Bookkeeping

namespace Decimal

/-- A zero that has a minus sign. -/
def isNegativeZero (d : Decimal) : Bool := d.negative && d.isZero

variable {d : Decimal} {cs : List Char}

theorem plain_eq_iff : d.plain = d ↔ d.isNegativeZero = false := by
  obtain ⟨negative, coefficient, scale, hc, hs⟩ := d
  cases negative with
  | false => simp [plain, isNegativeZero]
  | true => by_cases hzero : coefficient = 0 <;> simp [plain, isNegativeZero, isZero, hzero]

/-- Without an exponent no zero is negative. -/
theorem plain_of_readPlain (h : readPlain cs = .ok d) : d.plain = d := by
  have hfinish {n : Except ReadError Digits} {negative : Bool}
      (h : (·.finish negative) <$> n = .ok d) : d.plain = d := by
    cases n with
    | error e => cases h
    | ok n =>
      cases h
      simp [plain, Digits.finish]
  unfold readPlain at h
  split at h
  · cases h
  · exact hfinish h
  · exact hfinish h
  · exact hfinish h

theorem exponent_of_isNegativeZero (h : ofChars cs = .ok d) (hzero : d.isNegativeZero = true) :
    ∃ c ∈ cs, isExponentMark c = true := by
  by_contra hnone
  push Not at hnone
  have hwhole : cs.dropWhile (!isExponentMark ·) = [] := by
    rw [List.dropWhile_eq_nil_iff]
    intro c hc
    simpa using hnone c hc
  rw [ofChars, hwhole] at h
  rw [plain_eq_iff.1 (plain_of_readPlain h)] at hzero
  cases hzero

end Decimal

namespace Binary64

variable {x : Binary64} {c : Char}

theorem exists_digits_of_nearestOf {tie : Tie} {count : Nat} {r : DecimalDigits}
    (h : nearestOf tie x count = some r) : ∃ n, r.digits = Text.digits n := by
  unfold nearestOf at h
  dsimp only at h
  split at h
  · cases h
  all_goals
    cases h
    exact ⟨_, rfl⟩

theorem isDigit_of_mem_shortest {tie : Tie} (h : c ∈ (x.shortest tie).digits) :
    Text.isDigit c = true := by
  have hzero (h : c ∈ ['0']) : Text.isDigit c = true := by
    rw [List.mem_singleton.1 h]
    decide
  unfold shortest at h
  split at h
  · exact hzero h
  · split at h
    · next r hr =>
      obtain ⟨k, -, hk⟩ := List.exists_of_findSome?_eq_some hr
      obtain ⟨n, hn⟩ := exists_digits_of_nearestOf hk
      have hmem := (List.dropWhile_suffix _).mem (List.mem_reverse.1 h)
      rw [List.mem_reverse, hn] at hmem
      exact Text.isDigit_of_mem_digits hmem
    · exact hzero h

theorem DecimalDigits.mem_positional {r : DecimalDigits} (h : c ∈ r.positional) :
    c ∈ r.digits ∨ c = '0' ∨ c = '.' := by
  unfold positional at h
  split at h
  · simp only [List.cons_append, List.mem_cons, List.mem_append, List.mem_replicate] at h
    tauto
  · extract_lets whole at h
    split at h
    · simp only [List.mem_append, List.mem_replicate] at h
      tauto
    · rcases List.mem_append.1 h with h | h
      · exact .inl (List.mem_of_mem_take h)
      · rcases List.mem_cons.1 h with rfl | h
        · exact .inr (.inr rfl)
        · exact .inl (List.mem_of_mem_drop h)

theorem isExponentMark_of_mem_positional {tie : Tie} (h : c ∈ (x.shortest tie).positional) :
    Decimal.isExponentMark c = false := by
  rcases DecimalDigits.mem_positional h with h | rfl | rfl
  · exact Decimal.isExponentMark_of_isDigit (isDigit_of_mem_shortest h)
  · decide
  · decide

end Binary64

namespace Json

/-- A string with an exponent stands between two places and spells the number. -/
def SpellsExponent (c : Cursor) (d : Decimal) (c' : Cursor) : Prop :=
  ∃ s, Spells c s c' ∧ Decimal.ofText s = .ok d ∧
    ∃ x ∈ s.toList, Decimal.isExponentMark x = true

/-- A number that is no string is no negative zero: a whole one would have lost its sign, and the
digits of the others have no exponent. -/
theorem meets_amountField (c : Cursor) : Meets (· = c) amountField fun d c' => c'.rest <:+ c.rest ∧
    (d.isNegativeZero = true → SpellsExponent c d c') := by
  have hplain {d : Decimal} (h : d.isNegativeZero = false) {c' : Cursor}
      (hrest : c'.rest <:+ c.rest) :
      c'.rest <:+ c.rest ∧ (d.isNegativeZero = true → SpellsExponent c d c') :=
    ⟨hrest, fun hzero => by rw [h] at hzero; cases hzero⟩
  refine (meets_textOrNumber _ c).bind fun x => ?_
  split
  · next s =>
    split
    · next d hd =>
      exact .pure fun c' h => ⟨h.1, fun hzero =>
        ⟨s, h.2, hd, Decimal.exponent_of_isNegativeZero hd hzero⟩⟩
    · exact meets_fail _
  · exact .pure fun c' h => hplain rfl h.1
  · next n =>
    refine .pure fun c' h => hplain ?_ h.1
    have hn : n.toNat ≠ 0 := fun hzero => h.2 (congrArg _ (UInt64.toNat_inj.1 hzero))
    simpa [Decimal.isNegativeZero, Decimal.ofWord, Decimal.isZero] using hn
  · next negative x =>
    split
    · next d hd =>
      refine .pure fun c' h => hplain ?_ h.1
      by_contra hzero
      obtain ⟨c, hc, hmark⟩ :=
        Decimal.exponent_of_isNegativeZero hd (Bool.not_eq_false _ ▸ hzero)
      rcases List.mem_append.1 hc with hsign | hdigits
      · split at hsign
        · rw [List.mem_singleton.1 hsign] at hmark
          cases hmark
        · cases hsign
      · rw [Binary64.isExponentMark_of_mem_positional hdigits] at hmark
        cases hmark
    · exact meets_fail _

theorem exponent_of_amountField {c c' : Cursor} {d : Decimal} (h : amountField c = .ok (d, c'))
    (hzero : d.isNegativeZero = true) : SpellsExponent c d c' :=
  (meets_amountField c c d c' rfl h).2 hzero

section Amounts

variable {δ : Type} {cs : List Char} {amount : δ → Option Decimal} {draft : δ} {d : Decimal}

/-- The amount was read somewhere in a text. -/
def HoldsAmount (cs : List Char) (d : Decimal) : Prop :=
  ∃ c c', c.rest <:+ cs ∧ amountField c = .ok (d, c')

theorem holds_amountField :
    Meets (·.rest <:+ cs) amountField fun d c => c.rest <:+ cs ∧ HoldsAmount cs d :=
  fun c d c' hc h => ⟨(meets_amountField c c d c' rfl h).1.trans hc, c, c', hc, h⟩

theorem keeps_uuidField : Keeps cs uuidField := keeps_spelled _ _

theorem keeps_momentField : Keeps cs momentField := keeps_spelled _ _

/-- The amount of a draft, if it has one, was read somewhere in a text. -/
def Draws (cs : List Char) (amount : δ → Option Decimal) (draft : δ) : Prop :=
  ∀ d, amount draft = some d → HoldsAmount cs d

theorem draws_put (hput : amount draft = some d) (hd : HoldsAmount cs d) :
    Draws cs amount draft := by
  intro d' hd'
  rw [hput] at hd'
  cases hd'
  exact hd

theorem required_eq_ok {α : Type} {name : String} {value : Option α} {a : α}
    (h : required name value = .ok a) : value = some a := by
  cases value with
  | none => cases h
  | some x =>
    cases h
    rfl

end Amounts

theorem writeText_inj {s s' : String} (h : writeText s = writeText s') : s = s' := by
  have hread (s : String) : ofChars textValue (writeText s) = .ok s :=
    ofChars_of_yields (List.append_nil (writeText s) ▸ yields_textValue s [])
  exact Except.ok.inj ((hread s).symm.trans (h ▸ hread s'))

/-- A kind of record with an amount: how it is read and written, and what it is when it is read
back. -/
structure Kind (α : Type) where
  read : Reader α
  write : α → List Char
  amount : α → Decimal
  plain : α → α

namespace Kind

variable {α : Type} {k : Kind α} {cs : List Char} {a : α}

def restate (k : Kind α) (cs : List Char) : Except Fault (List Char) :=
  k.write <$> ofChars k.read cs

/-- A record is read back from what is written for it, with its amount plain, and the text tells
records apart whose amounts are not the same. -/
structure Lawful (k : Kind α) : Prop where
  yields : ∀ a rest, Yields k.read (k.write a ++ rest) (k.plain a) rest
  plain_plain : ∀ a, k.plain (k.plain a) = k.plain a
  plain_eq : ∀ a, k.plain a = a ↔ (k.amount a).plain = k.amount a
  amount_of_write : ∀ a, k.write (k.plain a) = k.write a → (k.amount a).plain = k.amount a
  amount_of_read : ∀ cs a, ofChars k.read cs = .ok a → HoldsAmount cs (k.amount a)

theorem Lawful.ofChars_write (h : k.Lawful) (a : α) :
    ofChars k.read (k.write a) = .ok (k.plain a) :=
  ofChars_of_yields (List.append_nil (k.write a) ▸ h.yields a [])

theorem Lawful.restate_write (h : k.Lawful) (a : α) :
    k.restate (k.write a) = .ok (k.write (k.plain a)) := by
  rw [restate, h.ofChars_write]
  rfl

theorem Lawful.restate_eq_self (h : k.Lawful) (a : α) :
    k.restate (k.write a) = .ok (k.write a) ↔ k.plain a = a := by
  rw [h.restate_write, Except.ok.injEq, h.plain_eq]
  refine ⟨h.amount_of_write a, fun hamount => ?_⟩
  rw [(h.plain_eq a).2 hamount]

/-- What is written for an accepted text is accepted and spells the same record with its amount
plain. Written again, that stays as it is; and so does what was written first, unless the amount is
a negative zero. Then there stands a string with an exponent where the amount was read. -/
def Settles (k : Kind α) (cs : List Char) : Prop := ∀ a, ofChars k.read cs = .ok a →
  k.restate cs = .ok (k.write a) ∧ ofChars k.read (k.write a) = .ok (k.plain a) ∧
    k.restate (k.write a) = .ok (k.write (k.plain a)) ∧
    k.restate (k.write (k.plain a)) = .ok (k.write (k.plain a)) ∧
    (k.restate (k.write a) = .ok (k.write a) ↔ (k.amount a).isNegativeZero = false) ∧
    (k.plain a = a ↔ (k.amount a).isNegativeZero = false) ∧
    ∃ c c', c.rest <:+ cs ∧ amountField c = .ok (k.amount a, c') ∧
      ((k.amount a).isNegativeZero = true → SpellsExponent c (k.amount a) c')

theorem Lawful.settles (h : k.Lawful) (cs : List Char) : k.Settles cs := by
  intro a hread
  have hplain : k.plain a = a ↔ (k.amount a).isNegativeZero = false :=
    (h.plain_eq a).trans Decimal.plain_eq_iff
  refine ⟨by rw [restate, hread]; rfl, h.ofChars_write a, h.restate_write a, ?_,
    (h.restate_eq_self a).trans hplain, hplain, ?_⟩
  · exact (h.restate_eq_self (k.plain a)).2 (h.plain_plain a)
  · obtain ⟨c, c', hc, hamount⟩ := h.amount_of_read cs a hread
    exact ⟨c, c', hc, hamount, exponent_of_amountField hamount⟩

end Kind

end Json

open Json

theorem Decimal.plain_eq_of_writeText {d : Decimal}
    (h : writeText d.plain.text = writeText d.text) : d.plain = d := text_inj (writeText_inj h)

def Transaction.kind : Kind Transaction := ⟨schema.read, write, amount, plain⟩

def Entry.kind : Kind Entry := ⟨schema.read, write, amount, plain⟩

def Completion.kind : Kind Completion := ⟨schema.read, write, amount, plain⟩

theorem Transaction.preserves_schema (cs : List Char) :
    schema.Preserves cs (Draws cs Draft.amount) := by
  intro f hf d hd
  simp only [schema, List.mem_cons, List.not_mem_nil, or_false] at hf
  rcases hf with rfl | rfl | rfl | rfl | rfl | rfl
  · exact keeps_fieldOf keeps_uuidField fun _ => hd
  · exact keeps_fieldOf (keeps_textField _) fun _ => hd
  · exact keeps_fieldOf (keeps_textField _) fun _ => hd
  · exact keeps_fieldOf (keeps_textField _) fun _ => hd
  · exact meets_fieldOf holds_amountField fun _ hb => draws_put rfl hb
  · exact keeps_fieldOf keeps_momentField fun _ => hd

theorem Transaction.amount_of_finish {d : Draft} {a : Transaction} (h : schema.finish d = .ok a) :
    d.amount = some a.amount := by
  obtain ⟨_, -, h⟩ := exists_of_bind h
  obtain ⟨_, -, h⟩ := exists_of_bind h
  obtain ⟨_, -, h⟩ := exists_of_bind h
  obtain ⟨_, -, h⟩ := exists_of_bind h
  obtain ⟨amount, hamount, h⟩ := exists_of_bind h
  obtain ⟨_, -, h⟩ := exists_of_bind h
  cases h
  exact required_eq_ok hamount

theorem Entry.preserves_schema (cs : List Char) :
    schema.Preserves cs (Draws cs Draft.amount) := by
  intro f hf d hd
  simp only [schema, List.mem_cons, List.not_mem_nil, or_false] at hf
  rcases hf with rfl | rfl | rfl | rfl
  · exact keeps_fieldOf keeps_uuidField fun _ => hd
  · exact keeps_fieldOf (keeps_textField _) fun _ => hd
  · exact meets_fieldOf holds_amountField fun _ hb => draws_put rfl hb
  · exact keeps_fieldOf keeps_momentField fun _ => hd

theorem Entry.amount_of_finish {d : Draft} {a : Entry} (h : schema.finish d = .ok a) :
    d.amount = some a.amount := by
  obtain ⟨_, -, h⟩ := exists_of_bind h
  obtain ⟨_, -, h⟩ := exists_of_bind h
  obtain ⟨amount, hamount, h⟩ := exists_of_bind h
  obtain ⟨_, -, h⟩ := exists_of_bind h
  cases h
  exact required_eq_ok hamount

theorem Completion.preserves_schema (cs : List Char) :
    schema.Preserves cs (Draws cs Draft.amount) := by
  intro f hf d hd
  simp only [schema, List.mem_cons, List.not_mem_nil, or_false] at hf
  rcases hf with rfl | rfl | rfl | rfl | rfl
  · exact keeps_fieldOf keeps_uuidField fun _ => hd
  · exact keeps_fieldOf (keeps_textField _) fun _ => hd
  · exact keeps_fieldOf (keeps_textField _) fun _ => hd
  · exact meets_fieldOf holds_amountField fun _ hb => draws_put rfl hb
  · exact keeps_fieldOf keeps_momentField fun _ => hd

theorem Completion.amount_of_finish {d : Draft} {a : Completion} (h : schema.finish d = .ok a) :
    d.amount = some a.amount := by
  obtain ⟨_, -, h⟩ := exists_of_bind h
  obtain ⟨_, -, h⟩ := exists_of_bind h
  obtain ⟨_, -, h⟩ := exists_of_bind h
  obtain ⟨amount, hamount, h⟩ := exists_of_bind h
  obtain ⟨_, -, h⟩ := exists_of_bind h
  cases h
  exact required_eq_ok hamount

theorem Transaction.lawful_kind : Transaction.kind.Lawful where
  yields := yields_write
  plain_plain t := by simp [kind, plain]
  plain_eq t := by
    cases t
    simp [kind, plain]
  amount_of_write t h := by
    refine Decimal.plain_eq_of_writeText ?_
    simpa [kind, write, plain, writeObject, List.intercalate] using h
  amount_of_read cs t h := by
    obtain ⟨d, hd, hfinish⟩ := ofChars_of_meets ((preserves_schema cs).read nofun) h
    exact hd t.amount (amount_of_finish hfinish)

theorem Entry.lawful_kind : Entry.kind.Lawful where
  yields := yields_write
  plain_plain e := by simp [kind, plain]
  plain_eq e := by
    cases e
    simp [kind, plain]
  amount_of_write e h := by
    refine Decimal.plain_eq_of_writeText ?_
    simpa [kind, write, plain, writeObject, List.intercalate] using h
  amount_of_read cs e h := by
    obtain ⟨d, hd, hfinish⟩ := ofChars_of_meets ((preserves_schema cs).read nofun) h
    exact hd e.amount (amount_of_finish hfinish)

theorem Completion.lawful_kind : Completion.kind.Lawful where
  yields := yields_write
  plain_plain c := by simp [kind, plain]
  plain_eq c := by
    cases c
    simp [kind, plain]
  amount_of_write c h := by
    refine Decimal.plain_eq_of_writeText ?_
    simpa [kind, write, plain, writeObject, List.intercalate] using h
  amount_of_read cs c h := by
    obtain ⟨d, hd, hfinish⟩ := ofChars_of_meets ((preserves_schema cs).read nofun) h
    exact hd c.amount (amount_of_finish hfinish)

/-- Whatever text is accepted as a transaction, an entry or a notice, its record is written as one
that spells an equal record, which is written the same for ever after. The first one is written so
too, and the record is the very same, unless its amount is a negative zero. That is never read from
a number, nor from a string without an exponent. -/
theorem records_settle (cs : List Char) :
    Transaction.kind.Settles cs ∧ Entry.kind.Settles cs ∧ Completion.kind.Settles cs ∧
      ∀ d : Decimal, d.plain.Same d ∧
        (∀ amount, Decimal.ofText amount = .ok d → d.isNegativeZero = true →
          ∃ c ∈ amount.toList, Decimal.isExponentMark c = true) ∧
        ∀ c c', amountField c = .ok (d, c') → d.isNegativeZero = true → SpellsExponent c d c' :=
  ⟨Transaction.lawful_kind.settles cs, Entry.lawful_kind.settles cs,
    Completion.lawful_kind.settles cs, fun d => ⟨d.same_plain,
      fun _ => Decimal.exponent_of_isNegativeZero, fun _ _ => exponent_of_amountField⟩⟩

def Transaction.spelled (amount : String) : List Char :=
  writeObject
    [("id", writeText "00000001-0000-4000-8000-000000000001"), ("idempotency_key", writeText "k1"),
      ("from_account", writeText "alice"), ("to_account", writeText "bob"),
      ("amount", writeText amount), ("created_at", writeText "2024-01-02T03:04:05Z")]

/-- All digits are rounded off and the minus sign stays; it is gone only when that is read again. -/
theorem Transaction.restate_negative_zero :
    kind.restate (spelled "-0.0001e-26") = .ok (spelled "-0.0000000000000000000000000000") ∧
      kind.restate (spelled "-0.0000000000000000000000000000") =
        .ok (spelled "0.0000000000000000000000000000") ∧
      spelled "-0.0000000000000000000000000000" ≠ spelled "0.0000000000000000000000000000" := by
  refine ⟨?_, ?_, ?_⟩
  · decide +kernel
  · decide +kernel
  · decide +kernel

end Bookkeeping
