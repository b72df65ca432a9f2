import Mathlib.Data.List.Forall2
import Bookkeeping.Proofs.Posting.RoundTrip

/-! The line of a posting holds one line feed, at its end, and is decoded as that posting. -/
namespace Bookkeeping

/-- Entries that differ at most in the sign of a zero. -/
structure Entry.Same (a b : Entry) : Prop where
  id : a.id = b.id
  account : a.account = b.account
  amount : a.amount.Same b.amount
  createdAt : a.createdAt = b.createdAt

/-- Transactions that differ at most in the sign of a zero. -/
structure Transaction.Same (a b : Transaction) : Prop where
  id : a.id = b.id
  key : a.key = b.key
  fromAccount : a.fromAccount = b.fromAccount
  toAccount : a.toAccount = b.toAccount
  amount : a.amount.Same b.amount
  createdAt : a.createdAt = b.createdAt

theorem Entry.same_plain (e : Entry) : e.plain.Same e :=
  ⟨rfl, rfl, e.amount.same_plain, rfl⟩

theorem Transaction.same_plain (t : Transaction) : t.plain.Same t :=
  ⟨rfl, rfl, rfl, rfl, t.amount.same_plain, rfl⟩

theorem Entry.forall₂_same_plain (es : List Entry) : List.Forall₂ Same (es.map (·.plain)) es := by
  rw [List.forall₂_map_left_iff]
  exact List.forall₂_same.2 fun e _ => e.same_plain

theorem Transaction.forall₂_same_plain (ts : List Transaction) :
    List.Forall₂ Same (ts.map (·.plain)) ts := by
  rw [List.forall₂_map_left_iff]
  exact List.forall₂_same.2 fun t _ => t.same_plain

@[simp] theorem Transaction.plain_plain (t : Transaction) : t.plain.plain = t.plain := by
  simp [Transaction.plain]

@[simp] theorem Entry.plain_plain (e : Entry) : e.plain.plain = e.plain := by
  simp [Entry.plain]

namespace Posting

@[simp] theorem key_plain (p : Posting) : p.plain.key = p.key := rfl

@[simp] theorem transaction_plain (p : Posting) : p.plain.transaction = p.transaction.plain := rfl

@[simp] theorem entries_plain (p : Posting) : p.plain.entries = p.entries.map (·.plain) := rfl

end Posting

namespace Journal

theorem splitAtSpace_append {cs : List Char} (rest : List Char) (h : ' ' ∉ cs) :
    splitAtSpace (cs ++ ' ' :: rest) = some (cs, rest) := by
  induction cs with
  | nil => simp [splitAtSpace]
  | cons c cs ih =>
    simp only [List.mem_cons, not_or] at h
    simp [splitAtSpace, Ne.symm h.1, ih h.2]

theorem splitAtSpace_eq_some {cs sum json : List Char} (h : splitAtSpace cs = some (sum, json)) :
    cs = sum ++ ' ' :: json ∧ ' ' ∉ sum := by
  induction cs generalizing sum with
  | nil => cases h
  | cons c cs ih =>
    unfold splitAtSpace at h
    split at h
    · next hc =>
      cases h
      exact ⟨by rw [hc, List.nil_append], List.not_mem_nil⟩
    · next hc =>
      obtain ⟨⟨sum', json'⟩, hsplit, heq⟩ := Option.map_eq_some_iff.1 h
      cases heq
      obtain ⟨rfl, hsum⟩ := ih hsplit
      exact ⟨rfl, List.not_mem_cons_of_ne_of_not_mem (Ne.symm hc) hsum⟩

theorem decodeLine_encodeChars {sum json : List Char} (hsum : ' ' ∉ sum)
    (hread : Text.readNatural 16 (twoTo 32) sum =
      .ok (Digest.crc32 (Text.encodeChars json)).toNat) :
    decodeLine (Text.encodeChars (sum ++ ' ' :: json)) =
      (Json.ofChars Posting.schema.read json).mapError .badRecord := by
  rw [decodeLine, Text.decodeChars_encodeChars]
  simp only [bind, Except.bind, splitAtSpace_append json hsum, hread, ne_eq, not_true_eq_false,
    if_false]
  cases Json.ofChars Posting.schema.read json <;> rfl

/-- A line is decoded as the record that follows its checksum, if that is the right one; otherwise
something else than the record is wrong with it. -/
theorem decodeLine_cases (bytes : List UInt8) :
    (∃ sum json, bytes = Text.encodeChars (sum ++ ' ' :: json) ∧ ' ' ∉ sum ∧
      Text.readNatural 16 (twoTo 32) sum = .ok (Digest.crc32 (Text.encodeChars json)).toNat ∧
      decodeLine bytes = (Json.ofChars Posting.schema.read json).mapError .badRecord) ∨
    ∃ fault, decodeLine bytes = .error fault ∧ ∀ f, fault ≠ .badRecord f := by
  unfold decodeLine
  cases hcs : Text.decodeChars bytes with
  | error e => exact .inr ⟨.notText e, rfl, nofun⟩
  | ok cs =>
  cases hsplit : splitAtSpace cs with
  | none => exact .inr ⟨.noChecksum, by simp [hsplit, bind, Except.bind], nofun⟩
  | some parts =>
  obtain ⟨sum, json⟩ := parts
  obtain ⟨rfl, hsum⟩ := splitAtSpace_eq_some hsplit
  cases hread : Text.readNatural 16 (twoTo 32) sum with
  | error e => exact .inr ⟨.badChecksum e, by simp [hsplit, hread, bind, Except.bind], nofun⟩
  | ok n =>
  simp only [hsplit, hread, bind, Except.bind, ne_eq, ite_not]
  split
  · next hcrc =>
    refine .inl ⟨sum, json, (Text.encodeChars_of_decodeChars hcs).symm, hsum, hcrc ▸ hread, ?_⟩
    cases Json.ofChars Posting.schema.read json <;> rfl
  · exact .inr ⟨.mismatch, rfl, nofun⟩

def checksumChars (p : Posting) : List Char :=
  Text.fixedHex 8 (Digest.crc32 (Text.encodeChars p.write)).toNat

theorem isHexDigit_of_mem_checksumChars {p : Posting} {c : Char} (h : c ∈ checksumChars p) :
    Text.isHexDigit c = true := Text.isHexDigit_of_mem_fixedHex h

theorem space_notMem_checksumChars (p : Posting) : ' ' ∉ checksumChars p := fun h =>
  absurd (isHexDigit_of_mem_checksumChars h) (by decide)

theorem readNatural_checksumChars (p : Posting) :
    Text.readNatural 16 (twoTo 32) (checksumChars p) =
      .ok (Digest.crc32 (Text.encodeChars p.write)).toNat := by
  have hlt : (Digest.crc32 (Text.encodeChars p.write)).toNat < 16 ^ 8 :=
    (Digest.crc32 (Text.encodeChars p.write)).toNat_lt
  exact Text.readNatural_fixedHex (by decide) hlt hlt

theorem ofChars_write (p : Posting) : Json.ofChars Posting.schema.read p.write = .ok p.plain :=
  Json.ofChars_of_yields (by simpa using p.yields_write [])

def lineChars (p : Posting) : List Char :=
  Text.fixedHex 8 (Digest.crc32 (Text.encodeChars p.write)).toNat ++ ' ' :: p.write

theorem lineChars_eq (p : Posting) : lineChars p = checksumChars p ++ ' ' :: p.write := rfl

theorem lineBody_eq (p : Posting) : lineBody p = Text.encodeChars (lineChars p) := by
  simp [lineBody, lineChars, Text.encodeChars_append, Text.encodeChars_cons]

theorem decodeLine_lineBody (p : Posting) : decodeLine (lineBody p) = .ok p.plain := by
  rw [lineBody_eq, lineChars_eq, decodeLine_encodeChars (space_notMem_checksumChars p)
    (readNatural_checksumChars p), ofChars_write]
  rfl

theorem newline_notMem_lineBody (p : Posting) : newline ∉ lineBody p := by
  rw [lineBody_eq, Text.mem_encodeChars_ascii (by decide)]
  rintro ⟨c, hc, hn⟩
  have hc' : c = '\n' := Char.toNat_inj.1 hn
  subst hc'
  simp only [lineChars_eq, List.mem_append, List.mem_cons] at hc
  rcases hc with h | h | h
  · exact absurd (isHexDigit_of_mem_checksumChars h) (by decide)
  · exact absurd h (by decide)
  · exact p.newline_notMem_write h

@[simp] theorem encodeLine_ne_nil (p : Posting) : encodeLine p ≠ [] := by
  simp [encodeLine]

theorem newline_notMem_take {p : Posting} {n : Nat} (h : n < (encodeLine p).length) :
    newline ∉ (encodeLine p).take n := by
  have hn : n ≤ (lineBody p).length := by
    rw [encodeLine, List.length_append, List.length_singleton] at h
    omega
  rw [encodeLine, List.take_append_of_le_length hn]
  exact fun hm => newline_notMem_lineBody p (List.mem_of_mem_take hm)

/-- The line of a posting holds one line feed, its last byte, and is decoded without it as the same
three rows: identifiers, texts and times are equal, and amounts are in value and scale. -/
theorem decodeLine_encodeLine (p : Posting) :
    (encodeLine p).getLast? = some newline ∧ newline ∉ (encodeLine p).dropLast ∧
      ∃ q, decodeLine (encodeLine p).dropLast = .ok q ∧ q.transaction.Same p.transaction ∧
        q.debit.Same p.debit ∧ q.credit.Same p.credit := by
  have hbody : (encodeLine p).dropLast = lineBody p := List.dropLast_concat
  rw [hbody]
  exact ⟨List.getLast?_concat, newline_notMem_lineBody p, p.plain, decodeLine_lineBody p,
    p.transaction.same_plain, p.debit.same_plain, p.credit.same_plain⟩

end Journal

end Bookkeeping
