import Bookkeeping.Proofs.Journal.Discarding

/-! Which bytes recovery refuses, and which line it names. It is the first that is no record though
more bytes follow it, or that has the key of a line before it; bytes without such a line are records
with different keys and what may follow them. -/
namespace Bookkeeping.Journal

variable {bytes before before' body body' rest rest' file tail : List UInt8} {ps : List Posting}
  {p : Posting} {c c' : Corruption}

def lineNumber (before : List UInt8) : Nat := before.count newline + 1

theorem LineOf.eq_append (h : LineOf bytes before body rest) :
    bytes = before ++ (body ++ newline :: rest) ∧ newline ∉ body := by
  induction h with
  | first rest hbody => exact ⟨rfl, hbody⟩
  | later hother h ih =>
    obtain ⟨rfl, hbody⟩ := ih
    exact ⟨by simp, hbody⟩

theorem LineOf.unique (h : LineOf bytes before body rest) (h' : LineOf bytes before' body' rest')
    (hlength : before.length = before'.length) :
    before = before' ∧ body = body' ∧ rest = rest' := by
  obtain ⟨rfl, hbody⟩ := h.eq_append
  obtain ⟨hbytes, hbody'⟩ := h'.eq_append
  obtain ⟨rfl, hline⟩ := List.append_inj hbytes hlength
  exact ⟨rfl, append_cons_inj hbody hbody' hline⟩

namespace Records

theorem lineNumber_eq (h : Records file ps) : lineNumber file = ps.length + 1 := by
  induction h with
  | nil => rfl
  | cons hbody hdecode hrest ih =>
    unfold lineNumber at ih ⊢
    rw [List.count_append, List.count_cons_self, List.count_eq_zero_of_not_mem hbody,
      List.length_cons]
    omega

theorem lineOf (h : Records file ps) (hbody : newline ∉ body) (rest : List UInt8) :
    LineOf (file ++ (body ++ newline :: rest)) file body rest := by
  induction h with
  | nil => exact .first rest hbody
  | cons hfirst hdecode hrest ih =>
    rw [List.append_assoc, List.cons_append]
    exact .later hfirst ih

theorem mem_of_line (h : Records file ps) (hline : LineOf file before body rest) :
    ∃ p ∈ ps, decodeLine body = .ok p := by
  rw [← List.append_nil file] at hline
  rcases h.split hline with ⟨earlier, p, later, rfl, -, hdecode, -⟩ | ⟨between, -, hafter⟩
  · exact ⟨p, by simp, hdecode⟩
  · exact absurd hafter.mem List.not_mem_nil

theorem exists_line (h : Records file ps) (hp : p ∈ ps) :
    ∃ before body rest, LineOf file before body rest ∧ decodeLine body = .ok p := by
  induction h with
  | nil => cases hp
  | @cons body bytes q ps hbody hdecode hrest ih =>
    cases hp with
    | head => exact ⟨[], body, bytes, .first bytes hbody, hdecode⟩
    | tail _ hp =>
      obtain ⟨before, body', rest, hline, hdecode'⟩ := ih hp
      exact ⟨_, body', rest, .later hbody hline, hdecode'⟩

end Records

/-- What is wrong with a line, between the bytes before it and those after its line feed: it is no
record though more bytes follow it, or it has the key of a line before it. -/
inductive Defect (before body rest : List UInt8) : Corruption → Prop where
  | unread {fault : LineFault} (hdecode : decodeLine body = .error fault) (hrest : rest ≠ []) :
    Defect before body rest (.badLine (lineNumber before) fault)
  | repeated {before' body' rest' : List UInt8} {p q : Posting}
    (hdecode : decodeLine body = .ok p) (hearlier : LineOf before before' body' rest')
    (hdecode' : decodeLine body' = .ok q) (hkey : q.key = p.key) :
    Defect before body rest (.duplicateKey (lineNumber before) p.key)

/-- The first line of some bytes that has a defect. -/
structure FirstDefect (bytes before body rest : List UInt8) (c : Corruption) : Prop where
  line : LineOf bytes before body rest
  defect : Defect before body rest c
  first : ∀ before' body' rest' c', LineOf bytes before' body' rest' →
    Defect before' body' rest' c' → before.length ≤ before'.length

theorem Defect.unique (h : Defect before body rest c) (h' : Defect before body rest c') :
    c = c' := by
  cases h with
  | unread hdecode hrest =>
    cases h' with
    | unread hdecode' hrest' =>
      rw [hdecode] at hdecode'
      cases hdecode'
      rfl
    | repeated hdecode' =>
      rw [hdecode] at hdecode'
      cases hdecode'
  | repeated hdecode hearlier hread hkey =>
    cases h' with
    | unread hdecode' =>
      rw [hdecode] at hdecode'
      cases hdecode'
    | repeated hdecode' =>
      rw [hdecode] at hdecode'
      cases hdecode'
      rfl

theorem FirstDefect.unique (h : FirstDefect bytes before body rest c)
    (h' : FirstDefect bytes before' body' rest' c') : c = c' := by
  have hlength : before.length = before'.length :=
    Nat.le_antisymm (h.first _ _ _ _ h'.line h'.defect) (h'.first _ _ _ _ h.line h.defect)
  obtain ⟨rfl, rfl, rfl⟩ := h.line.unique h'.line hlength
  exact h.defect.unique h'.defect

theorem Records.defect (h : Records file ps) (hkeys : (ps.map (·.key)).Nodup)
    (hline : LineOf (file ++ tail) before body rest) (hdefect : Defect before body rest c) :
    ∃ between, before = file ++ between ∧ LineOf tail between body rest := by
  rcases h.split hline with ⟨earlier, p, later, rfl, hearlier, hread, -⟩ | hafter
  · exfalso
    cases hdefect with
    | unread hdecode =>
      rw [hread] at hdecode
      cases hdecode
    | repeated hdecode hother hdecode' hkey =>
      rw [hread] at hdecode
      cases hdecode
      obtain ⟨q, hq, hread'⟩ := hearlier.mem_of_line hother
      rw [hread'] at hdecode'
      cases hdecode'
      have hnew : p.key ∉ earlier.map (·.key) :=
        Book.hasKey_eq_false.1 (Book.hasKey_of_nodup hkeys)
      exact hnew (hkey ▸ List.mem_map_of_mem hq)
  · exact hafter

theorem Records.firstDefect (h : Records file ps) (hkeys : (ps.map (·.key)).Nodup)
    (hline : LineOf (file ++ tail) file body rest) (hdefect : Defect file body rest c) :
    FirstDefect (file ++ tail) file body rest c where
  line := hline
  defect := hdefect
  first := by
    intro before' body' rest' c' hline' hdefect'
    obtain ⟨between, rfl, -⟩ := h.defect hkeys hline' hdefect'
    simp

theorem Blocked.firstDefect (h : Blocked (ps.length + 1) ps tail c) (hrecords : Records file ps)
    (hkeys : (ps.map (·.key)).Nodup) :
    ∃ body rest, FirstDefect (file ++ tail) file body rest c := by
  rw [← hrecords.lineNumber_eq] at h
  cases h with
  | unread hbody hdecode hrest =>
    exact ⟨_, _, hrecords.firstDefect hkeys (hrecords.lineOf hbody _) (.unread hdecode hrest)⟩
  | repeated hbody hdecode hkey =>
    obtain ⟨q, hq, hkey'⟩ := List.mem_map.1 hkey
    obtain ⟨before', body', rest', hline, hdecode'⟩ := hrecords.exists_line hq
    exact ⟨_, _, hrecords.firstDefect hkeys (hrecords.lineOf hbody _)
      (.repeated hdecode hline hdecode' hkey')⟩

theorem Torn.not_defect (h : Torn tail) (hrecords : Records file ps)
    (hkeys : (ps.map (·.key)).Nodup) (hline : LineOf (file ++ tail) before body rest) :
    ¬Defect before body rest c := by
  intro hdefect
  obtain ⟨between, -, hafter⟩ := hrecords.defect hkeys hline hdefect
  obtain ⟨-, rfl, fault, hread⟩ := h.line hafter
  cases hdefect with
  | unread hdecode hrest => exact hrest rfl
  | repeated hdecode =>
    rw [hread] at hdecode
    cases hdecode

theorem recover_eq_error_iff :
    recover bytes = .error c ↔ ∃ before body rest, FirstDefect bytes before body rest c := by
  obtain ⟨ps, whole, tail, rfl, hrecords, hkeys, ⟨htorn, hok⟩ | ⟨c', hblocked, herror⟩⟩ :=
    recover_cases bytes
  · rw [hok]
    refine ⟨nofun, ?_⟩
    rintro ⟨before, body, rest, hdefect⟩
    exact absurd hdefect.defect (htorn.not_defect hrecords hkeys hdefect.line)
  · obtain ⟨body, rest, hfirst⟩ := hblocked.firstDefect hrecords hkeys
    rw [herror]
    constructor
    · intro heq
      cases heq
      exact ⟨whole, body, rest, hfirst⟩
    · rintro ⟨before', body', rest', hdefect⟩
      rw [hfirst.unique hdefect]

theorem Defect.toError_eq (h : Defect before body rest c) :
    ∃ reason, c.toError = .journalCorrupted (lineNumber before) reason := by
  cases h with
  | unread => exact ⟨_, rfl⟩
  | repeated => exact ⟨_, rfl⟩

/-- Recovery succeeds just on lines that are records with different keys, followed by nothing, by a
piece of a line or by one last line that is no record; it takes up the records, and its length ends
where they do. On all other bytes it answers that the journal is corrupted at the first line that is
no record though more bytes follow it, or that has the key of a line before it. -/
theorem recover_decides (bytes : List UInt8) :
    (∀ r, recover bytes = .ok r ↔
      ∃ ps whole tail, bytes = whole ++ tail ∧ Records whole ps ∧ (ps.map (·.key)).Nodup ∧
        Torn tail ∧ r = ⟨Book.of ps, whole.length⟩) ∧
    ∀ c, recover bytes = .error c ↔
      ∃ before body rest, FirstDefect bytes before body rest c ∧
        ∃ reason, c.toError = .journalCorrupted (lineNumber before) reason := by
  refine ⟨fun r => recover_eq_ok_iff, fun c => recover_eq_error_iff.trans ?_⟩
  constructor
  · rintro ⟨before, body, rest, h⟩
    exact ⟨before, body, rest, h, h.defect.toError_eq⟩
  · rintro ⟨before, body, rest, h, -⟩
    exact ⟨before, body, rest, h⟩

end Bookkeeping.Journal
