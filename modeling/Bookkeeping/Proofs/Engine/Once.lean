import Mathlib.Data.List.Nodup
import Bookkeeping.Proofs.Engine.Run

/-! Of all postings with one key at most one is stored, however their steps are interleaved and
whatever fails: the invariant is that the book holds exactly the rows of the tasks that posted. -/
namespace Bookkeeping.Engine

/-- The postings that a move appends to the book, each with the task that takes a step. -/
def Move.appended (e : Engine) : Move → List (Nat × Posting)
  | .step s i => ((e.move (.step s i)).book.postings.drop e.book.postings.length).map (i, ·)
  | _ => []

/-- The postings that a run appends to the book, each with the task that did. -/
def appended (e : Engine) : List Move → List (Nat × Posting)
  | [] => []
  | m :: ms => m.appended e ++ (e.move m).appended ms

/-- The book holds the rows of the tasks that posted, each of them with its own key, and the keys of
all tasks that found theirs. -/
structure Accounted (e : Engine) (rows : List (Nat × Posting)) : Prop where
  book : e.book = Book.of (rows.map (·.2))
  keys : (rows.map (·.2)).map (·.key) |>.Nodup
  posted : ∀ i p, (i, p) ∈ rows ↔ ∃ tx, e.outcome? i = some (.posted tx) ∧ p = tx.posting
  made : ∀ i tx, e.outcome? i = some (.posted tx) →
    ∃ r id now, e.request? i = some r ∧ tx = r.toTransaction id now
  duplicate : ∀ i, e.outcome? i = some .duplicate →
    ∃ r, e.request? i = some r ∧ e.book.hasKey r.key = true

variable {e e' : Engine} {rows : List (Nat × Posting)} {i : Nat} {t : Task} {stage : Stage}

theorem Fresh.accounted (h : Fresh e) : e.Accounted [] := by
  obtain ⟨htasks, hstore⟩ := h.empty
  have hbook : e.book = {} := by
    rw [Engine.book]
    cases hstore with
    | inl hstore => rw [hstore]; rfl
    | inr hstore => rw [hstore]; rfl
  have hnone (j : Nat) : e.outcome? j = none := by
    rw [outcome?, htasks]
    rfl
  exact ⟨hbook, List.nodup_nil, by simp [hnone], by simp [hnone], by simp [hnone]⟩

theorem Accounted.start (h : e.Accounted rows) (r : PostingRequest) :
    (e.start r).Accounted rows where
  book := h.book
  keys := h.keys
  posted := by simpa using h.posted
  made := by
    intro i tx hout
    obtain ⟨r', id, now, hreq, htx⟩ := h.made i tx (by simpa using hout)
    exact ⟨r', id, now, request?_start hreq, htx⟩
  duplicate := by
    intro i hout
    obtain ⟨r', hreq, hkey⟩ := h.duplicate i (by simpa using hout)
    exact ⟨r', request?_start hreq, hkey⟩

theorem Accounted.goOn (h : e.Accounted rows) (htask : e.tasks[i]? = some t)
    (hopen : t.isFinished = false) (htasks : e'.tasks = e.tasks.modify i fun t => { t with stage })
    (hbook : e'.book = e.book) (hposted : ∀ tx, stage ≠ .finished (.posted tx))
    (hduplicate : stage = .finished .duplicate → e.book.hasKey t.request.key = true) :
    e'.Accounted rows := by
  have hold {j : Nat} {tx : Transaction} :
      e'.outcome? j = some (.posted tx) ↔ e.outcome? j = some (.posted tx) := by
    rw [outcome?_modify_stage htask htasks]
    by_cases hj : j = i
    · subst hj
      simp [hposted, outcome?_of_open htask hopen]
    · simp [hj]
  refine ⟨hbook ▸ h.book, h.keys, by simpa only [hold] using h.posted, ?_, ?_⟩
  · simpa only [hold, request?_modify_stage htasks] using h.made
  · intro j hout
    rw [outcome?_modify_stage htask htasks] at hout
    rw [request?_modify_stage htasks, hbook]
    by_cases hj : j = i
    · subst hj
      rw [if_pos rfl, Task.outcome?_eq_some] at hout
      exact ⟨t.request, request?_of_task htask, hduplicate hout⟩
    · rw [if_neg hj] at hout
      exact h.duplicate j hout

theorem Accounted.post {tx : Transaction} (h : e.Accounted rows) (htask : e.tasks[i]? = some t)
    (hopen : t.isFinished = false)
    (htasks : e'.tasks = e.tasks.modify i fun t => { t with stage := .finished (.posted tx) })
    (htx : ∃ id now, tx = t.request.toTransaction id now)
    (hkey : e.book.hasKey tx.posting.key = false)
    (hbook : e'.book = ⟨e.book.transactions ++ [tx.posting.transaction],
      e.book.entries ++ tx.posting.entries, e.book.keys ++ [tx.posting.key]⟩) :
    e'.Accounted (rows ++ [(i, tx.posting)]) := by
  have hout (j : Nat) :
      e'.outcome? j = if j = i then some (.posted tx) else e.outcome? j :=
    outcome?_modify_stage htask htasks j
  have hnone := outcome?_of_open htask hopen
  have hbook' : e'.book = Book.of ((rows ++ [(i, tx.posting)]).map (·.2)) := by
    rw [List.map_append, List.map_singleton, Book.of_append_singleton, ← h.book]
    exact hbook
  refine ⟨hbook', ?_, ?_, ?_, ?_⟩
  · rw [List.map_append, List.map_singleton]
    exact Book.nodup_keys_append h.keys (Book.notMem_of_hasKey (by rw [h.book, Book.of]) hkey)
  · intro j p
    rw [List.mem_append, h.posted, hout, List.mem_singleton, Prod.mk.injEq]
    by_cases hj : j = i
    · subst hj
      simp [hnone]
    · simp [hj]
  · intro j tx' hj'
    rw [hout] at hj'
    rw [request?_modify_stage htasks]
    by_cases hj : j = i
    · subst hj
      rw [if_pos rfl, Option.some.injEq, Outcome.posted.injEq] at hj'
      obtain ⟨id, now, hmade⟩ := htx
      exact ⟨t.request, id, now, request?_of_task htask, hj' ▸ hmade⟩
    · rw [if_neg hj] at hj'
      exact h.made j tx' hj'
  · intro j hj'
    rw [hout] at hj'
    rw [request?_modify_stage htasks]
    by_cases hj : j = i
    · rw [if_pos hj] at hj'
      cases hj'
    · rw [if_neg hj] at hj'
      obtain ⟨r, hreq, hknown⟩ := h.duplicate j hj'
      refine ⟨r, hreq, ?_⟩
      rw [Book.hasKey_iff] at hknown ⊢
      rw [hbook]
      exact List.mem_append_left _ hknown

theorem Accounted.advance (h : e.Accounted rows) (htask : e.tasks[i]? = some t)
    (hopen : t.isFinished = false) (htasks : e'.tasks = e.tasks.modify i fun t => { t with stage })
    (hadvance : Advance e.store t stage e'.store) :
    ∃ new, (∀ r ∈ new, r.1 = i) ∧ e'.Accounted (rows ++ new) := by
  have hstay (hbook : e'.book = e.book) (hposted : ∀ tx, stage ≠ .finished (.posted tx))
      (hduplicate : stage = .finished .duplicate → e.book.hasKey t.request.key = true) :
      ∃ new, (∀ r ∈ new, r.1 = i) ∧ e'.Accounted (rows ++ new) := by
    refine ⟨[], by simp, ?_⟩
    rw [List.append_nil]
    exact h.goOn htask hopen htasks hbook hposted hduplicate
  generalize hstore : e'.store = store at hadvance
  have hbook : e'.book = store.book := congrArg Store.book hstore
  cases hadvance with
  | checked _ _ => exact hstay hbook (by simp) (by simp)
  | known _ hkey => exact hstay hbook (by simp) fun _ => hkey
  | failed error => exact hstay hbook (by simp) (by simp)
  | validated _ _ => exact hstay hbook (by simp) (by simp)
  | locking _ hstage =>
    refine hstay hbook ?_ ?_
    · rintro tx rfl
      simp [Stage.isLocking] at hstage
    · rintro rfl
      simp [Stage.isLocking] at hstage
  | panicked => exact hstay hbook (by simp) (by simp)
  | saved hstage device id now =>
    have hkept := e.store.save_kept device (t.request.toTransaction id now).posting
    generalize (e.store.save device (t.request.toTransaction id now).posting).store.book = book
      at hkept hbook
    generalize (e.store.save device (t.request.toTransaction id now).posting).result = result
      at hkept htasks hstay
    cases hkept with
    | saved hkey =>
      exact ⟨[(i, (t.request.toTransaction id now).posting)], by simp,
        h.post htask hopen htasks ⟨id, now, rfl⟩ hkey hbook⟩
    | duplicate hkey => exact hstay hbook (by simp [Outcome.ofSave]) fun _ => hkey
    | failed error => exact hstay hbook (by simp [Outcome.ofSave]) (by simp [Outcome.ofSave])

theorem Accounted.congr (h : e.Accounted rows) (htasks : e'.tasks = e.tasks)
    (hstore : e'.store = e.store) : e'.Accounted rows := by
  have hbook : e'.book = e.book := congrArg Store.book hstore
  have hout (j : Nat) : e'.outcome? j = e.outcome? j := by rw [outcome?, outcome?, htasks]
  have hreq (j : Nat) : e'.request? j = e.request? j := by rw [request?, request?, htasks]
  refine ⟨hbook ▸ h.book, h.keys, ?_, ?_, ?_⟩
  · simpa only [hout] using h.posted
  · simpa only [hout, hreq] using h.made
  · simpa only [hout, hreq, hbook] using h.duplicate

theorem Accounted.appended_eq {new : List (Nat × Posting)} {m : Move} (h : e.Accounted rows)
    (h' : (e.move m).Accounted (rows ++ new))
    (hnew : ∀ r ∈ new, ∃ s, m = .step s r.1) : m.appended e = new := by
  cases new with
  | nil =>
    cases m with
    | step s i =>
      rw [List.append_nil] at h'
      simp [Move.appended, h.book, h'.book]
    | _ => rfl
  | cons r new =>
    obtain ⟨s, rfl⟩ := hnew r (by simp)
    have hsame : ∀ q ∈ r :: new, (r.1, q.2) = q := by
      intro q hq
      obtain ⟨s', hs'⟩ := hnew q hq
      rw [Move.step.injEq] at hs'
      rw [hs'.2]
    have hdrop : (e.move (.step s r.1)).book.postings.drop e.book.postings.length =
        (r :: new).map (·.2) := by
      rw [h.book, h'.book, Book.postings_of, Book.postings_of, List.map_append,
        List.drop_left]
    rw [Move.appended, hdrop, List.map_map]
    exact (List.map_congr_left (g := id) hsame).trans (List.map_id _)

theorem Accounted.move (h : e.Accounted rows) (m : Move) :
    (e.move m).Accounted (rows ++ m.appended e) := by
  -- what a move appends is read off the book, so any rows that account for the book are those
  suffices ∃ new, (∀ r ∈ new, ∃ s, m = .step s r.1) ∧ (e.move m).Accounted (rows ++ new) by
    obtain ⟨new, hnew, h'⟩ := this
    rwa [h.appended_eq h' hnew]
  have hnone (h' : (e.move m).Accounted rows) :
      ∃ new, (∀ r ∈ new, ∃ s, m = .step s r.1) ∧ (e.move m).Accounted (rows ++ new) :=
    ⟨[], by simp, by simpa using h'⟩
  have hmoved := e.move_moved m
  generalize hm : e.move m = e' at hmoved hnone ⊢
  cases hmoved with
  | still htasks hstore => exact hnone (h.congr htasks hstore)
  | started r => exact hnone (h.start r)
  | advanced htask hopen htasks hadvance =>
    obtain ⟨new, hnew, h'⟩ := h.advance htask hopen htasks hadvance
    exact ⟨new, fun r hr => ⟨_, by rw [hnew r hr]⟩, h'⟩
  | cancelled htask hopen htasks hstore =>
    exact hnone (h.goOn htask hopen htasks (congrArg Store.book hstore) (by simp) (by simp))

theorem Accounted.moves (h : e.Accounted rows) (ms : List Move) :
    (e.moves ms).Accounted (rows ++ e.appended ms) := by
  induction ms generalizing e rows with
  | nil => simpa [appended] using h
  | cons m ms ih =>
    have := ih (h.move m)
    rwa [List.append_assoc] at this

/-- In every run at most one of the postings with one key is stored, by the one task that answers
that it posted; all others store nothing. -/
theorem posts_once (h : Fresh e) (ms : List Move) :
    (e.moves ms).book = Book.of ((e.appended ms).map (·.2)) ∧
      ((e.moves ms).book.transactions.map (·.key)).Nodup ∧
      (∀ i tx, (e.moves ms).outcome? i = some (.posted tx) ↔ (i, tx.posting) ∈ e.appended ms) ∧
      (∀ i tx, (e.moves ms).outcome? i = some (.posted tx) →
        ∃ r id now, (e.moves ms).request? i = some r ∧ tx = r.toTransaction id now) ∧
      (∀ i j tx tx', (e.moves ms).outcome? i = some (.posted tx) →
        (e.moves ms).outcome? j = some (.posted tx') → tx.key = tx'.key → i = j) ∧
      (∀ i, (e.moves ms).outcome? i = some .duplicate → ∃ r, (e.moves ms).request? i = some r ∧
        r.key ∈ (e.moves ms).book.transactions.map (·.key)) ∧
      ∀ i, (∀ tx, (e.moves ms).outcome? i ≠ some (.posted tx)) → ∀ p, (i, p) ∉ e.appended ms := by
  have hend := h.accounted.moves ms
  rw [List.nil_append] at hend
  have hkeys : (e.moves ms).book.keys = (e.moves ms).book.transactions.map (·.key) := by
    rw [hend.book, Book.keys_of]
  have hposted {i : Nat} {tx : Transaction} (hout : (e.moves ms).outcome? i = some (.posted tx)) :
      (i, tx.posting) ∈ e.appended ms := (hend.posted i tx.posting).2 ⟨tx, hout, rfl⟩
  refine ⟨hend.book, ?_, ?_, hend.made, ?_, ?_, ?_⟩
  · rw [← hkeys, hend.book]
    exact hend.keys
  · intro i tx
    refine ⟨hposted, fun hmem => ?_⟩
    obtain ⟨tx', hout, htx⟩ := (hend.posted i tx.posting).1 hmem
    have : tx = tx' := congrArg Posting.transaction htx
    exact this ▸ hout
  · intro i j tx tx' hi hj hkey
    have hnodup := hend.keys
    rw [List.map_map] at hnodup
    exact congrArg Prod.fst (List.inj_on_of_nodup_map hnodup (hposted hi) (hposted hj) hkey)
  · intro i hout
    obtain ⟨r, hreq, hkey⟩ := hend.duplicate i hout
    exact ⟨r, hreq, hkeys ▸ Book.hasKey_iff.1 hkey⟩
  · intro i hout p hmem
    obtain ⟨tx, hout', -⟩ := (hend.posted i p).1 hmem
    exact hout tx hout'

theorem posts_once_race :
    Fresh (inMemory .absent) ∧
      ((inMemory .absent).moves race).outcome? 0 =
        some (.posted (smallRequest.toTransaction (.ofNat 0) .epoch)) ∧
      ((inMemory .absent).moves race).outcome? 1 = some .duplicate ∧
      (0, (smallRequest.toTransaction (.ofNat 0) .epoch).posting) ∈
        (inMemory .absent).appended race ∧
      ∀ p, (1, p) ∉ (inMemory .absent).appended race := by
  have hfirst : ((inMemory .absent).moves race).outcome? 0 =
      some (.posted (smallRequest.toTransaction (.ofNat 0) .epoch)) := by decide +kernel
  have hsecond : ((inMemory .absent).moves race).outcome? 1 = some .duplicate := by decide +kernel
  obtain ⟨-, -, hposted, -, -, -, hnone⟩ := posts_once (.inMemory .absent) race
  exact ⟨.inMemory _, hfirst, hsecond, (hposted 0 _).1 hfirst, hnone 1 (by simp [hsecond])⟩

end Bookkeeping.Engine
