import Bookkeeping.Proofs.Engine.Resume

/-! Replays under any limits: how many requests make a batch and how many are posted at one time
makes no difference to what is posted, and it is what posting them one at a time makes of them. -/
namespace Bookkeeping

def Entry.effect (e : Entry) : String × Decimal := (e.account, e.amount)

/-- Books that differ at most in the identifiers and the times of their rows. -/
structure Book.Alike (b b' : Book) : Prop where
  requests : b.requests = b'.requests
  effects : b.entries.map (·.effect) = b'.entries.map (·.effect)
  keys : b.keys = b'.keys

/-- Outcomes that differ at most in the identifier and the time of a transaction. -/
inductive Outcome.Alike : Outcome → Outcome → Prop where
  | posted {t t' : Transaction} (h : t.request = t'.request) : Alike (.posted t) (.posted t')
  | refl (o : Outcome) : Alike o o

theorem ReplaySummary.record_alike (s : ReplaySummary) {o o' : Outcome} (h : o.Alike o') :
    s.record o = s.record o' := by
  cases h with
  | posted _ => rfl
  | refl _ => rfl

theorem ReplaySummary.foldl_record_alike {os os' : List Outcome}
    (h : List.Forall₂ Outcome.Alike os os') (s : ReplaySummary) :
    os.foldl ReplaySummary.record s = os'.foldl ReplaySummary.record s := by
  induction h generalizing s with
  | nil => rfl
  | cons hhead _ ih => rw [List.foldl_cons, List.foldl_cons, s.record_alike hhead, ih]

theorem addEntry_effect {e e' : Entry} (h : e.effect = e'.effect)
    (balances : List (String × Decimal)) : addEntry e balances = addEntry e' balances := by
  obtain ⟨haccount, hamount⟩ := Prod.mk.inj h
  induction balances with
  | nil => rw [addEntry, addEntry, haccount, hamount]
  | cons b balances ih => rw [addEntry, addEntry, haccount, hamount, ih]

theorem balancesFrom_effects {es es' : List Entry}
    (h : es.map (·.effect) = es'.map (·.effect)) (balances : List (String × Decimal)) :
    balancesFrom balances es = balancesFrom balances es' := by
  induction es generalizing es' balances with
  | nil =>
    obtain rfl : es' = [] := List.map_eq_nil_iff.1 h.symm
    rfl
  | cons e es ih =>
    obtain ⟨e', es', rfl, heffect, hrest⟩ := List.map_eq_cons_iff.1 h.symm
    have haccount : e'.account = e.account := congrArg Prod.fst heffect
    rw [balancesFrom, balancesFrom, addEntry_effect heffect, haccount]
    cases addEntry e balances with
    | none => rfl
    | some balances => exact ih hrest.symm balances

namespace Book

variable {b b' : Book}

theorem Alike.refl (b : Book) : b.Alike b := ⟨rfl, rfl, rfl⟩

theorem amounts_entriesOf (b : Book) (account : String) :
    (b.entriesOf account).map (·.amount) =
      ((b.entries.map (·.effect)).filter (·.1 == account)).map (·.2) := by
  rw [List.filter_map, List.map_map]
  rfl

theorem Alike.balance (h : b.Alike b') (account : String) :
    b.balance account = b'.balance account := by
  rw [Book.balance, accountSum, amounts_entriesOf, h.effects, ← amounts_entriesOf]
  rfl

theorem Alike.balances (h : b.Alike b') : b.balances = b'.balances :=
  balancesFrom_effects h.effects []

theorem Alike.effects_entriesOf (h : b.Alike b') (account : String) :
    (b.entriesOf account).map (·.effect) = (b'.entriesOf account).map (·.effect) := by
  have hfilter (b : Book) : (b.entriesOf account).map (·.effect) =
      (b.entries.map (·.effect)).filter (·.1 == account) := by
    rw [List.filter_map]
    rfl
  rw [hfilter, hfilter, h.effects]

theorem Alike.hasKey (h : b.Alike b') (key : String) : b.hasKey key = b'.hasKey key := by
  rw [Book.hasKey, Book.hasKey, h.keys]

theorem effects_posting (t : Transaction) : t.posting.entries.map (·.effect) =
    [(t.fromAccount, t.amount.negate), (t.toAccount, t.amount)] := rfl

theorem Alike.insert (h : b.Alike b') {t t' : Transaction} (ht : t.request = t'.request)
    (hnew : b'.hasKey t'.key = false) :
    (b.insert t.posting).2.Alike (b'.insert t'.posting).2 := by
  obtain ⟨hfrom, hto, hamount, hkey⟩ : t.fromAccount = t'.fromAccount ∧
      t.toAccount = t'.toAccount ∧ t.amount = t'.amount ∧ t.key = t'.key := by
    simpa [Transaction.request] using ht
  have hnew₁ : b.hasKey t.posting.key = false := by
    rw [h.hasKey, show t.posting.key = t'.key from hkey, hnew]
  have hnew₂ : b'.hasKey t'.posting.key = false := hnew
  rw [insert_of_not_hasKey hnew₁, insert_of_not_hasKey hnew₂]
  constructor
  · have hrequests : b.transactions.map (·.request) = b'.transactions.map (·.request) := h.requests
    simp only [Book.requests, List.map_append, hrequests]
    exact congrArg (b'.transactions.map (·.request) ++ [·]) ht
  · simp only [List.map_append, h.effects, effects_posting, hfrom, hto, hamount]
  · rw [h.keys, show t.posting.key = t'.posting.key from hkey]

theorem Alike.post (h : b.Alike b') (r : PostingRequest) (id id' : Uuid) (now now' : Moment) :
    (b.post r id now).1.Alike (b'.post r id' now').1 ∧
      (b.post r id now).2.Alike (b'.post r id' now').2 := by
  unfold Book.post
  rw [h.hasKey]
  split
  · exact ⟨.refl _, h⟩
  · split
    · exact ⟨.refl _, h⟩
    · next hkey =>
      cases r.validate with
      | error error => exact ⟨.refl _, h⟩
      | ok _ =>
        rw [Bool.not_eq_true] at hkey
        have hsame : (r.toTransaction id now).request = (r.toTransaction id' now').request := rfl
        exact ⟨.posted hsame, h.insert hsame hkey⟩

end Book

namespace Store

variable {device device' : Journal.Device} {store store' : Store} {rs : List PostingRequest}
  {os os' : List Outcome}

theorem post_memory (b : Book) (device : Journal.Device) (r : PostingRequest) (id : Uuid)
    (now : Moment) :
    (memory b).post device r id now = ((b.post r id now).1, memory (b.post r id now).2) := by
  unfold Store.post Book.post
  split
  · rfl
  · have hbook : (memory b).book = b := rfl
    rw [hbook]
    split
    · rfl
    · next hkey =>
      cases r.validate with
      | error error => rfl
      | ok _ =>
        rw [Bool.not_eq_true] at hkey
        have hnew : b.hasKey (r.toTransaction id now).posting.key = false := hkey
        simp only [save]
        rw [Book.insert_of_not_hasKey hnew]
        rfl

theorem Posts.stays {b : Book} (h : Posts device (memory b) rs os store) :
    ∃ b', store = memory b' := by
  generalize hstart : memory b = start at h
  induction h generalizing b with
  | nil store => exact ⟨b, hstart.symm⟩
  | cons r id now _ ih =>
    subst hstart
    exact ih (b := (b.post r id now).2) (by rw [post_memory])

/-- Postings on a store that loses nothing are those on a book in memory. -/
theorem Posts.onBook (h : Posts .sound store rs os store') (hwhole : store.Whole) :
    Posts .sound (memory store.book) rs os (memory store'.book) := by
  induction h with
  | nil store => exact .nil _
  | @cons store store' rs os r id now hrest ih =>
    obtain ⟨hout, hbook, hwhole'⟩ := hwhole.post r id now
    have hmemory := post_memory store.book .sound r id now
    have hrest' : Posts .sound ((memory store.book).post .sound r id now).2 rs os
        (memory store'.book) := by
      rw [hmemory, ← hbook]
      exact ih hwhole'
    have hout' : (store.post .sound r id now).1 =
        ((memory store.book).post .sound r id now).1 := by rw [hout, hmemory]
    rw [hout']
    exact .cons r id now hrest'

theorem Posts.alike {b b' : Book} (halike : b.Alike b')
    (h : Posts device (memory b) rs os store) (h' : Posts device' (memory b') rs os' store') :
    store.book.Alike store'.book ∧ List.Forall₂ Outcome.Alike os os' := by
  induction rs generalizing b b' os os' with
  | nil =>
    cases h
    cases h'
    exact ⟨halike, .nil⟩
  | cons r rs ih =>
    cases h with
    | cons r id now hrest =>
    cases h' with
    | cons r id' now' hrest' =>
    obtain ⟨houtcome, hbooks⟩ := halike.post r id id' now now'
    rw [post_memory] at hrest hrest' ⊢
    rw [post_memory]
    obtain ⟨hfinal, hrests⟩ := ih hbooks hrest hrest'
    exact ⟨hfinal, .cons houtcome hrests⟩

end Store

/-- There is room for a replay's batches and for its permits. -/
structure ReplayLimits.Fits (l : ReplayLimits) (processors : Nat) : Prop where
  permits : l.permits.getD processors ≤ Batch.maxPermits
  batchSize : l.batchSize ≤ Csv.maxBatchSize

theorem ReplayLimits.batchSize_chosen_pos (size permits : Nat) :
    0 < (ReplayLimits.chosen size permits).batchSize := by
  simp only [ReplayLimits.chosen]
  split <;> omega

/-- The rows of a file that is there, whether or not it can be read. -/
def ReplayInput.reader? : ReplayInput → Option Csv.Reader
  | .bytes content => some (.ofBytes content)
  | .unreadable reason => some (.failing reason)
  | .missing _ => none

theorem Engine.replay_of_reader {l : ReplayLimits} {processors : Nat} (h : l.Fits processors)
    {input : ReplayInput} {reader : Csv.Reader} (hreader : input.reader? = some reader)
    (s : Surroundings) (e : Engine) : e.replay s processors l input =
      ((e.replayRows s l.batchSize (l.permits.getD processors) reader {}).1,
        .finished (e.replayRows s l.batchSize (l.permits.getD processors) reader {}).2) := by
  have hroom : ¬(Batch.maxPermits < l.permits.getD processors ||
      Csv.maxBatchSize < l.batchSize) = true := by
    have hpermits := h.permits
    have hbatch := h.batchSize
    simp only [Bool.or_eq_true, decide_eq_true_eq]
    omega
  cases input with
  | missing path => cases hreader
  | unreadable reason =>
    cases hreader
    simp only [Engine.replay, if_neg hroom]
  | bytes content =>
    cases hreader
    simp only [Engine.replay, if_neg hroom]

theorem Engine.replay_of_fits {l : ReplayLimits} {processors : Nat} (h : l.Fits processors)
    (s : Surroundings) (e : Engine) (bytes : List UInt8) :
    e.replay s processors l (.bytes bytes) =
      ((e.replayRows s l.batchSize (l.permits.getD processors) (.ofBytes bytes) {}).1,
        .finished
          (e.replayRows s l.batchSize (l.permits.getD processors) (.ofBytes bytes) {}).2) :=
  replay_of_reader h rfl s e

theorem Engine.replay_of_no_room {l : ReplayLimits} {processors : Nat} (h : ¬l.Fits processors)
    {input : ReplayInput} {reader : Csv.Reader} (hreader : input.reader? = some reader)
    (s : Surroundings) (e : Engine) : e.replay s processors l input = (e, .noRoom) := by
  have hroom : (Batch.maxPermits < l.permits.getD processors ||
      Csv.maxBatchSize < l.batchSize) = true := by
    rw [Bool.or_eq_true, decide_eq_true_eq, decide_eq_true_eq]
    by_contra hnone
    rw [not_or, Nat.not_lt, Nat.not_lt] at hnone
    exact h ⟨hnone.1, hnone.2⟩
  cases input with
  | missing path => cases hreader
  | unreadable reason => simp only [Engine.replay, if_pos hroom]
  | bytes content => simp only [Engine.replay, if_pos hroom]

/-- Of as many requests the same became; how many rows were no request is left open. -/
structure ReplaySummary.SameCounts (s s' : ReplaySummary) : Prop where
  posted : s.posted = s'.posted
  duplicates : s.duplicates = s'.duplicates
  rejected : s.rejected = s'.rejected
  failed : s.failed = s'.failed

theorem ReplaySummary.sameCounts_malformed (s : ReplaySummary) (malformed malformed' : Nat) :
    { s with malformed }.SameCounts { s with malformed := malformed' } := ⟨rfl, rfl, rfl, rfl⟩

namespace Engine

variable {e : Engine} {s : Surroundings} {b : Book}

/-- Ledgers with the same transactions in the same order, up to their identifiers and times, and
with the same balances. -/
structure SameLedger (e e' : Engine) : Prop where
  requests : e.book.requests = e'.book.requests
  balances : e.book.balances = e'.book.balances
  balance (account : String) : e.book.balance account = e'.book.balance account

theorem sameLedger_of_alike {e e' : Engine} (h : e.book.Alike e'.book) : e.SameLedger e' :=
  ⟨h.requests, h.balances, h.balance⟩

/-- Posts requests one at a time, each when the one before it has come to its end. -/
def postEach (s : Surroundings) (e : Engine) : List PostingRequest → Engine × List Outcome
  | [] => (e, [])
  | r :: rs =>
    let (e, outcome) := e.postAndWait s r
    let (e, outcomes) := postEach s e rs
    (e, outcome :: outcomes)

theorem Quiet.postEach (h : e.Quiet) (hmild : s.faults.Mild) (rs : List PostingRequest) :
    Store.Posts s.device e.store rs (e.postEach s rs).2 (e.postEach s rs).1.store := by
  induction rs generalizing e with
  | nil => exact .nil e.store
  | cons r rs ih =>
    obtain ⟨n, houtcome, hstore, hquiet⟩ := h.postAndWait_posts hmild r
    have hrest := ih hquiet
    rw [hstore] at hrest
    have hposts := Store.Posts.cons r _ _ hrest
    rw [← houtcome] at hposts
    exact hposts

theorem Quiet.replay_chosen (h : e.Quiet) (hmild : s.faults.Mild) {processors size permits : Nat}
    (hfits : (ReplayLimits.chosen size permits).Fits processors) (bytes : List UInt8) :
    ∃ os malformed,
      Store.Posts s.device e.store (Csv.Reader.ofBytes bytes).requests os
        (e.replay s processors (.chosen size permits) (.bytes bytes)).1.store ∧
      (e.replay s processors (.chosen size permits) (.bytes bytes)).2 =
        .finished { os.foldl ReplaySummary.record {} with malformed } := by
  have hsize := Nat.ne_of_gt (ReplayLimits.batchSize_chosen_pos size permits)
  obtain ⟨os, malformed, hposts, hsummary, -⟩ := h.replayRows hmild
    (ReplayLimits.chosen size permits).batchSize
    ((ReplayLimits.chosen size permits).permits.getD processors) (.ofBytes bytes) {}
  rw [if_neg hsize] at hposts
  rw [replay_of_fits hfits]
  exact ⟨os, malformed, hposts, congrArg ReplayEnd.finished hsummary⟩

/-- On a book in memory, a replay under any limits that there is room for posts the same
transactions, leaves the same balances and counts the same outcomes as one under any others, and as
posting the requests of the file one at a time. -/
theorem replay_any_limits (h : e.Quiet) (hstore : e.store = .memory b) (bytes : List UInt8)
    {processors size size' permits permits' : Nat}
    (hfits : (ReplayLimits.chosen size permits).Fits processors)
    (hfits' : (ReplayLimits.chosen size' permits').Fits processors) {s s' s'' : Surroundings}
    (hmild : s.faults.Mild) (hmild' : s'.faults.Mild) (hmild'' : s''.faults.Mild) :
    ∃ summary summary',
      (e.replay s processors (.chosen size permits) (.bytes bytes)).2 = .finished summary ∧
      (e.replay s' processors (.chosen size' permits') (.bytes bytes)).2 = .finished summary' ∧
      ((e.replay s processors (.chosen size permits) (.bytes bytes)).1.SameLedger
          (e.replay s' processors (.chosen size' permits') (.bytes bytes)).1 ∧
        summary.SameCounts summary') ∧
      (e.replay s processors (.chosen size permits) (.bytes bytes)).1.SameLedger
          (e.postEach s'' (Csv.Reader.ofBytes bytes).requests).1 ∧
        summary.SameCounts
          ((e.postEach s'' (Csv.Reader.ofBytes bytes).requests).2.foldl
            ReplaySummary.record {}) := by
  obtain ⟨os, malformed, hposts, hsummary⟩ := h.replay_chosen hmild hfits bytes
  obtain ⟨os', malformed', hposts', hsummary'⟩ := h.replay_chosen hmild' hfits' bytes
  have heach := h.postEach hmild'' (Csv.Reader.ofBytes bytes).requests
  rw [hstore] at hposts hposts' heach
  obtain ⟨hbooks, houtcomes⟩ := Store.Posts.alike (.refl b) hposts hposts'
  obtain ⟨hbooks', houtcomes'⟩ := Store.Posts.alike (.refl b) hposts heach
  refine ⟨_, _, hsummary, hsummary', ⟨sameLedger_of_alike hbooks, ?_⟩,
    sameLedger_of_alike hbooks', ?_⟩
  · rw [ReplaySummary.foldl_record_alike houtcomes]
    exact ReplaySummary.sameCounts_malformed ..
  · rw [ReplaySummary.foldl_record_alike houtcomes']
    exact ReplaySummary.sameCounts_malformed ..

theorem replay_any_limits_small :
    (inMemory .absent).Quiet ∧ (inMemory .absent).store = .memory {} ∧
      ((ReplayLimits.chosen 1 1).Fits 4 ∧ (ReplayLimits.chosen 0 0).Fits 4) ∧
      calm.faults.Mild ∧
      ((inMemory .absent).replay calm 4 (.chosen 0 0) (.bytes smallFile)).1.book.requests =
        [⟨"a", "b", .ofWord false 5, "k"⟩, ⟨"b", "c", .ofWord false 7, "l"⟩] ∧
      ((inMemory .absent).postEach calm (Csv.Reader.ofBytes smallFile).requests).1.book.requests =
        [⟨"a", "b", .ofWord false 5, "k"⟩, ⟨"b", "c", .ofWord false 7, "l"⟩] := by
  have hquiet : (inMemory .absent).Quiet := Locks.kept_empty
  have hone : (ReplayLimits.chosen 1 1).Fits 4 := ⟨by decide +kernel, by decide +kernel⟩
  have hdefault : (ReplayLimits.chosen 0 0).Fits 4 := ⟨by decide +kernel, by decide +kernel⟩
  have hcalm : calm.faults.Mild := Faults.mild_none
  obtain ⟨_, _, -, -, ⟨hsame, -⟩, heach, -⟩ :=
    replay_any_limits hquiet rfl smallFile hone hdefault hcalm hcalm hcalm
  have hposted : ((inMemory .absent).replay calm 4 (.chosen 1 1)
      (.bytes smallFile)).1.book.requests =
        [⟨"a", "b", .ofWord false 5, "k"⟩, ⟨"b", "c", .ofWord false 7, "l"⟩] := by decide +kernel
  exact ⟨hquiet, rfl, ⟨hone, hdefault⟩, hcalm, hsame.requests.symm.trans hposted,
    heach.requests.symm.trans hposted⟩

end Engine

end Bookkeeping
