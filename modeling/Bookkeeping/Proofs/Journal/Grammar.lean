import Bookkeeping.Proofs.Journal.Whole

/-! The bytes that a journal may consist of, whoever wrote them: whole lines of records with
different keys, and behind them a piece of a line or one line that is no record. Recovery succeeds
on these bytes and no others, takes up the records and leaves out what follows them. -/
namespace Bookkeeping.Journal

/-- Whole lines, each of them that of a record. -/
inductive Records : List UInt8 → List Posting → Prop where
  | nil : Records [] []
  | cons {body bytes : List UInt8} {p : Posting} {ps : List Posting} (hbody : newline ∉ body)
    (hdecode : decodeLine body = .ok p) (hrest : Records bytes ps) :
    Records (body ++ newline :: bytes) (p :: ps)

/-- What may follow the records: nothing, a piece of a line, or one line that is no record. -/
inductive Torn : List UInt8 → Prop where
  | cut {tail : List UInt8} (h : newline ∉ tail) : Torn tail
  | unread {body : List UInt8} {fault : LineFault} (hbody : newline ∉ body)
    (hdecode : decodeLine body = .error fault) : Torn (body ++ [newline])

variable {line length : Nat} {r : Recovered} {bytes bytes' tail : List UInt8} {p : Posting}
  {done ps qs : List Posting}

namespace Records

theorem append (h : Records bytes ps) (h' : Records bytes' qs) :
    Records (bytes ++ bytes') (ps ++ qs) := by
  induction h with
  | nil => exact h'
  | cons hbody hdecode _ ih =>
    rw [List.append_assoc, List.cons_append, List.cons_append]
    exact .cons hbody hdecode ih

theorem encodeLine (p : Posting) : Records (Journal.encodeLine p) [p.plain] :=
  .cons (newline_notMem_lineBody p) (decodeLine_lineBody p) .nil

theorem recovers (h : Records bytes ps) (hkeys : ((done ++ ps).map (·.key)).Nodup) :
    Recovers line ⟨Book.of done, length⟩ bytes (line + ps.length)
      ⟨Book.of (done ++ ps), length + bytes.length⟩ := by
  induction h generalizing line length done with
  | nil => simpa using Recovers.nil
  | @cons body bytes p ps hbody hdecode hrest ih =>
    have hfirst : Recovers line ⟨Book.of done, length⟩ (body ++ [newline]) (line + 1)
        ⟨Book.of (done ++ [p]), length + body.length + 1⟩ :=
      recovers_line hbody hdecode (Book.insert_of_nodup hkeys)
    have hkeys' : ((done ++ [p] ++ ps).map (·.key)).Nodup := by simpa using hkeys
    have hlater := hfirst.trans (ih hkeys')
    simpa [Nat.add_assoc, Nat.add_comm 1] using hlater

end Records

theorem notMem_of_firstLine (h : firstLine bytes = none) : newline ∉ bytes := by
  induction bytes with
  | nil => exact List.not_mem_nil
  | cons b bytes ih =>
    unfold firstLine at h
    split at h
    · cases h
    · next hb =>
      rw [List.mem_cons, not_or]
      exact ⟨Ne.symm (by simpa using hb), ih (by simpa using h)⟩

theorem Torn.recoverFrom_eq (h : Torn tail) : recoverFrom line r tail = .ok r := by
  cases h with
  | cut h => exact recoverFrom_of_notMem h
  | @unread body fault hbody hdecode =>
    have hfirst : firstLine (body ++ [newline]) = some (body, []) := firstLine_append [] hbody
    rw [recoverFrom]
    split
    · rfl
    · next heq =>
      rw [hfirst] at heq
      cases heq
      simp [hdecode]

/-- What recovery does not get past after some records: a line that is no record though more bytes
follow it, or one whose key is taken. -/
inductive Blocked (line : Nat) (done : List Posting) : List UInt8 → Corruption → Prop where
  | unread {body rest : List UInt8} {fault : LineFault} (hbody : newline ∉ body)
    (hdecode : decodeLine body = .error fault) (hrest : rest ≠ []) :
    Blocked line done (body ++ newline :: rest) (.badLine line fault)
  | repeated {body rest : List UInt8} {p : Posting} (hbody : newline ∉ body)
    (hdecode : decodeLine body = .ok p) (hkey : p.key ∈ done.map (·.key)) :
    Blocked line done (body ++ newline :: rest) (.duplicateKey line p.key)

/-- How recovery ends: behind records with different keys it comes to what may follow them, or to
what it does not get past. -/
theorem recoverFrom_cases (line length : Nat) (bytes : List UInt8)
    (hdone : (done.map (·.key)).Nodup) :
    ∃ (ps : List Posting) (whole tail : List UInt8), bytes = whole ++ tail ∧ Records whole ps ∧
      ((done ++ ps).map (·.key)).Nodup ∧
      ((Torn tail ∧ recoverFrom line ⟨Book.of done, length⟩ bytes =
          .ok ⟨Book.of (done ++ ps), length + whole.length⟩) ∨
        ∃ c, Blocked (line + ps.length) (done ++ ps) tail c ∧
          recoverFrom line ⟨Book.of done, length⟩ bytes = .error c) := by
  have hnone {done : List Posting} (hdone : (done.map (·.key)).Nodup) :
      ((done ++ ([] : List Posting)).map (·.key)).Nodup := by simpa using hdone
  generalize hstart : (⟨Book.of done, length⟩ : Recovered) = start
  -- the induction goes line by line, and each record is one more of those that are done
  fun_induction recoverFrom line start bytes generalizing done length with
  | case1 line start bytes hcut =>
    exact ⟨[], [], bytes, rfl, .nil, hnone hdone,
      .inl ⟨.cut (notMem_of_firstLine hcut), by simp [← hstart]⟩⟩
  | case2 line start bytes body rest hfirst fault hfault hempty =>
    obtain ⟨rfl, hbody⟩ := firstLine_eq_some hfirst
    obtain rfl : rest = [] := List.isEmpty_iff.1 hempty
    exact ⟨[], [], _, rfl, .nil, hnone hdone, .inl ⟨.unread hbody hfault, by simp [← hstart]⟩⟩
  | case3 line start bytes body rest hfirst fault hfault hmore =>
    obtain ⟨rfl, hbody⟩ := firstLine_eq_some hfirst
    exact ⟨[], [], _, rfl, .nil, hnone hdone,
      .inr ⟨_, .unread hbody hfault (by simpa using hmore), rfl⟩⟩
  | case4 line start bytes body rest hfirst p hdecode book hinsert =>
    obtain ⟨rfl, hbody⟩ := firstLine_eq_some hfirst
    subst hstart
    rcases Book.insert_cases done p with ⟨hkey, -⟩ | ⟨-, hsaved⟩
    · rw [← List.append_nil done] at hkey
      exact ⟨[], [], _, rfl, .nil, hnone hdone, .inr ⟨_, .repeated hbody hdecode hkey, rfl⟩⟩
    · rw [hsaved] at hinsert
      cases hinsert
  | case5 line start bytes body rest hfirst p hdecode book hinsert ih =>
    subst hstart
    obtain ⟨rfl, hbody⟩ := firstLine_eq_some hfirst
    rcases Book.insert_cases done p with ⟨-, hknown⟩ | ⟨hkey, hsaved⟩
    · rw [hknown] at hinsert
      cases hinsert
    · have hdone' : ((done ++ [p]).map (·.key)).Nodup := Book.nodup_keys_append hdone hkey
      have hbook : book = Book.of (done ++ [p]) := by
        rw [hsaved] at hinsert
        exact (congrArg Prod.snd hinsert).symm
      obtain ⟨ps, whole, tail, rfl, hrecords, hkeys, hend⟩ := ih _ hdone' (by rw [hbook])
      refine ⟨p :: ps, body ++ newline :: whole, tail, by simp, .cons hbody hdecode hrecords,
        by simpa using hkeys, ?_⟩
      have hlength : length + (body ++ newline :: whole).length =
          length + body.length + 1 + whole.length := by
        simp only [List.length_append, List.length_cons]
        omega
      have hline : line + (p :: ps).length = line + 1 + ps.length := by
        rw [List.length_cons]
        omega
      rw [hlength, hline]
      simpa using hend

theorem recover_cases (bytes : List UInt8) :
    ∃ (ps : List Posting) (whole tail : List UInt8), bytes = whole ++ tail ∧ Records whole ps ∧
      (ps.map (·.key)).Nodup ∧ ((Torn tail ∧ recover bytes = .ok ⟨Book.of ps, whole.length⟩) ∨
        ∃ c, Blocked (ps.length + 1) ps tail c ∧ recover bytes = .error c) := by
  have hnone : (([] : List Posting).map (·.key)).Nodup := List.nodup_nil
  have h := recoverFrom_cases 1 0 bytes hnone
  simpa [recover, Book.of_nil, Nat.add_comm 1] using h

/-- Recovery succeeds on records with different keys and what may follow them, and takes up just
the records. -/
theorem recover_eq_ok_iff : recover bytes = .ok r ↔
    ∃ ps whole tail, bytes = whole ++ tail ∧ Records whole ps ∧ (ps.map (·.key)).Nodup ∧
      Torn tail ∧ r = ⟨Book.of ps, whole.length⟩ := by
  constructor
  · intro h
    obtain ⟨ps, whole, tail, hbytes, hrecords, hkeys, ⟨htorn, hok⟩ | ⟨c, -, herror⟩⟩ :=
      recover_cases bytes
    · rw [hok] at h
      exact ⟨ps, whole, tail, hbytes, hrecords, hkeys, htorn, (Except.ok.inj h).symm⟩
    · rw [herror] at h
      cases h
  · rintro ⟨ps, whole, tail, rfl, hrecords, hkeys, htorn, rfl⟩
    have hwhole : Recovers 1 ⟨Book.of [], 0⟩ whole (1 + ps.length)
        ⟨Book.of ([] ++ ps), 0 + whole.length⟩ :=
      hrecords.recovers (by simpa using hkeys)
    have h := hwhole tail
    rw [htorn.recoverFrom_eq] at h
    simpa [recover, Book.of_nil] using h

end Bookkeeping.Journal
