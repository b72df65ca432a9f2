import Bookkeeping.Proofs.Engine.Answers
import Bookkeeping.Proofs.Engine.InOrder

/-! Replays that are stopped and begun again: the requests whose transactions are in the journal are
known the second time, and the others are posted, so that the ledger comes to be the same. -/
namespace Bookkeeping

/-- What a transaction was asked for; it got its identifier and its time by itself. -/
def Transaction.request (t : Transaction) : PostingRequest :=
  ⟨t.fromAccount, t.toAccount, t.amount, t.key⟩

def Book.requests (b : Book) : List PostingRequest := b.transactions.map (·.request)

namespace PostingRequest

/-- A request that can be posted unless its key is taken. -/
structure Valid (r : PostingRequest) : Prop where
  key : Text.blank r.key = false
  validated : r.validate = .ok ()

instance (r : PostingRequest) : Decidable r.Valid :=
  decidable_of_iff (Text.blank r.key = false ∧ r.validate = .ok ())
    ⟨fun h => ⟨h.1, h.2⟩, fun h => ⟨h.key, h.validated⟩⟩

/-- Of requests that are posted one after the other those that make a transaction, where some keys
are taken at first. -/
def admitted (taken : List String) : List PostingRequest → List PostingRequest
  | [] => []
  | r :: rs =>
    if r.Valid ∧ r.key ∉ taken then r :: admitted (taken ++ [r.key]) rs else admitted taken rs

theorem admitted_resume {taken : List String} {firsts rs : List PostingRequest}
    (h : firsts <+: admitted taken rs) :
    firsts ++ admitted (taken ++ firsts.map (·.key)) rs = admitted taken rs := by
  -- of what was posted already the first is the first that is admitted, and is refused from then on
  induction rs generalizing taken firsts with
  | nil =>
    obtain rfl : firsts = [] := List.prefix_nil.1 h
    rfl
  | cons r rs ih =>
    unfold admitted at h
    by_cases hr : r.Valid ∧ r.key ∉ taken
    · rw [if_pos hr] at h
      cases firsts with
      | nil => simp
      | cons first firsts =>
        obtain ⟨rfl, hfirsts⟩ := List.cons_prefix_cons.1 h
        have hknown : ¬(first.Valid ∧ first.key ∉ taken ++ (first :: firsts).map (·.key)) := by simp
        have hrest := ih hfirsts
        rw [admitted, if_neg hknown, admitted, if_pos hr, List.cons_append, List.map_cons]
        rw [List.append_assoc, List.singleton_append] at hrest
        rw [hrest]
    · rw [if_neg hr] at h
      have hrefused : ¬(r.Valid ∧ r.key ∉ taken ++ firsts.map (·.key)) := by
        rintro ⟨hvalid, hkey⟩
        exact hr ⟨hvalid, fun hmem => hkey (List.mem_append_left _ hmem)⟩
      rw [admitted, if_neg hrefused, admitted, if_neg hr]
      exact ih h

theorem admitted_again (taken : List String) (rs : List PostingRequest) :
    admitted (taken ++ (admitted taken rs).map (·.key)) rs = [] :=
  List.append_right_eq_self.1 (admitted_resume List.prefix_rfl)

end PostingRequest

/-- A book in which further postings were stored. -/
def Book.grown (b : Book) (ps : List Posting) : Book :=
  ⟨b.transactions ++ ps.map (·.transaction), b.entries ++ ps.flatMap (·.entries),
    b.keys ++ ps.map (·.key)⟩

theorem Book.grown_nil (b : Book) : b.grown [] = b := by
  simp [grown]

theorem Book.grown_insert {b : Book} {p : Posting} (hkey : b.hasKey p.key = false)
    (ps : List Posting) : (b.insert p).2.grown ps = b.grown (p :: ps) := by
  rw [insert_of_not_hasKey hkey]
  simp [grown]

/-- An outcome of which the request itself is the cause. -/
inductive Outcome.Refused : Outcome → Prop where
  | duplicate : Refused .duplicate
  | failed {error : Error} (h : error.isRejection = true) : Refused (.failed error)

theorem ReplaySummary.record_refused (s : ReplaySummary) {outcome : Outcome}
    (h : outcome.Refused) :
    (s.record outcome).posted = s.posted ∧ (s.record outcome).failed = s.failed := by
  cases h with
  | duplicate => exact ⟨rfl, rfl⟩
  | failed h =>
    rw [record, if_pos h]
    exact ⟨rfl, rfl⟩

theorem PostingRequest.isRejection_of_validate {r : PostingRequest} {error : Error}
    (h : r.validate = .error error) : error.isRejection = true := by
  unfold validate at h
  split at h
  · cases h
    rfl
  · split at h
    · cases h
      rfl
    · split at h
      · cases h
        rfl
      · cases h

namespace Journal.Store

open Journal (newline encodeLine encodeLines Device)
open PostingRequest (admitted)

variable {s : Journal.Store} {file : List UInt8} {device : Device}

/-- What becomes of a posting on a journal whose device may stop: it is refused, it is posted and
its line is stored, or the device stops in its line. -/
inductive Fate (s : Journal.Store) (file : List UInt8) (device : Device) (r : PostingRequest) :
    Outcome × Bookkeeping.Store → Prop where
  | refused {outcome : Outcome} (h : ¬(r.Valid ∧ r.key ∉ s.book.keys)) (hout : outcome.Refused) :
    Fate s file device r (outcome, .journal s file)
  | posted (h : r.Valid ∧ r.key ∉ s.book.keys) (id : Uuid) (now : Moment) :
    Fate s file device r (.posted (r.toTransaction id now),
      .journal (s.grown (r.toTransaction id now).posting)
        (file ++ encodeLine (r.toTransaction id now).posting))
  | stopped (hdevice : device ≠ .sound) (error : Error) {s' : Journal.Store}
    (hs' : s'.broken = true) {tail : List UInt8} (htail : newline ∉ tail) :
    Fate s file device r (.failed error, .journal s' (file ++ tail))

theorem Whole.post_fate (h : s.Whole file) (hdevice : device.Stops) (r : PostingRequest)
    (id : Uuid) (now : Moment) :
    Fate s file device r ((Bookkeeping.Store.journal s file).post device r id now) := by
  unfold Bookkeeping.Store.post
  split
  · next hblank =>
    refine .refused (fun hr => ?_) (.failed rfl)
    rw [hr.1.key] at hblank
    cases hblank
  · next hblank =>
    split
    · next hkey => exact .refused (fun hr => hr.2 (Book.hasKey_iff.1 hkey)) .duplicate
    · next hkey =>
      have hnew : s.book.hasKey r.key = false := Bool.eq_false_of_not_eq_true hkey
      rw [Bool.not_eq_true] at hblank
      cases hvalid : r.validate with
      | error error =>
        refine .refused (fun hr => ?_) (.failed (r.isRejection_of_validate hvalid))
        rw [hr.1.validated] at hvalid
        cases hvalid
      | ok _ =>
        have hr : r.Valid ∧ r.key ∉ s.book.keys := ⟨⟨hblank, hvalid⟩, Book.hasKey_eq_false.1 hnew⟩
        cases hwrite : device.write file file.length
            (encodeLine (r.toTransaction id now).posting) with
        | done =>
          have hcommit := h.commit_done (p := (r.toTransaction id now).posting) hnew hwrite
          simp only [Bookkeeping.Store.save, hcommit]
          exact .posted hr id now
        | failed stored reason =>
          obtain ⟨error, s', tail, hcommit, hbroken, htail⟩ :=
            h.commit_stopped (p := (r.toTransaction id now).posting) hdevice hnew hwrite
          simp only [Bookkeeping.Store.save, hcommit]
          refine .stopped ?_ error hbroken htail
          rintro rfl
          cases hwrite

theorem keys_grown {p : Posting} (hkey : s.book.hasKey p.key = false) :
    (s.grown p).book.keys = s.book.keys ++ [p.key] := by
  rw [Store.grown, Book.insert_of_not_hasKey hkey]

/-- The lines of further postings were appended to a journal. -/
structure Extends (s : Journal.Store) (file : List UInt8) (new : List Posting)
    (s' : Journal.Store) : Prop where
  whole : s'.Whole (file ++ encodeLines new)
  book : s'.book = s.book.grown new

variable {s' : Journal.Store} {new : List Posting} {p : Posting}

theorem Extends.refl (h : s.Whole file) : Extends s file [] s :=
  ⟨by simpa using h, (Book.grown_nil _).symm⟩

theorem Extends.cons (hkey : s.book.hasKey p.key = false)
    (h : Extends (s.grown p) (file ++ encodeLine p) new s') : Extends s file (p :: new) s' where
  whole := by simpa using h.whole
  book := h.book.trans (Book.grown_insert hkey new)

theorem Extends.eq_of_nil (h : Extends s file [] s') (hwhole : s.Whole file) : s' = s := by
  have hbook : s'.book = s.book := h.book.trans (Book.grown_nil s.book)
  have hfile : s'.Whole file := by simpa using h.whole
  rw [hwhole.eq_mk, hfile.eq_mk, hbook]

theorem Extends.requests (h : Extends s file new s') :
    s'.book.requests = s.book.requests ++ new.map (·.transaction.request) := by
  simp [h.book, Book.grown, Book.requests]

theorem Extends.keys (h : Extends s file new s') :
    s'.book.keys = s.book.keys ++ (new.map (·.transaction.request)).map (·.key) := by
  rw [h.book, Book.grown, List.map_map]
  rfl

variable {s₁ s₂ : Journal.Store} {file₁ : List UInt8} {first second full : List Posting}
  {rs : List PostingRequest}

/-- Where the first of the requests that are admitted have been posted, posting all requests again
makes of the book what posting them once would have made of it. -/
theorem Extends.resume (hfirst : s.Extends file first s₁) (hsecond : s₁.Extends file₁ second s₂)
    (hbegins : first.map (·.transaction.request) <+: admitted s.book.keys rs)
    (hrest : second.map (·.transaction.request) = admitted s₁.book.keys rs) :
    s₂.book.requests = s.book.requests ++ admitted s.book.keys rs := by
  rw [hsecond.requests, hfirst.requests, hrest, hfirst.keys, List.append_assoc,
    PostingRequest.admitted_resume hbegins]

theorem Extends.again (hfull : s.Extends file full s')
    (hall : full.map (·.transaction.request) = admitted s.book.keys rs)
    (hmore : new.map (·.transaction.request) = admitted s'.book.keys rs) : new = [] := by
  rw [hfull.keys, hall, PostingRequest.admitted_again] at hmore
  exact List.map_eq_nil_iff.1 hmore

end Journal.Store

namespace Store

open Journal (newline encodeLine encodeLines Device)
open PostingRequest (admitted)

variable {s : Journal.Store} {file : List UInt8} {device : Device} {store store' : Store}
  {rs : List PostingRequest} {os : List Outcome}

theorem post_of_broken (hs : s.broken = true) (device : Device) (r : PostingRequest) (id : Uuid)
    (now : Moment) : ((journal s file).post device r id now).2 = journal s file := by
  have hsave (p : Posting) : ((journal s file).save device p).store = journal s file := by
    simp [Store.save, Journal.Store.commit, hs]
  unfold post
  split
  · rfl
  · split
    · rfl
    · cases r.validate with
      | error error => rfl
      | ok _ => exact hsave _

theorem Posts.of_broken (h : Posts device store rs os store') (hstore : store = journal s file)
    (hs : s.broken = true) : store' = journal s file := by
  induction h with
  | nil store => exact hstore
  | cons r id now _ ih =>
    subst hstore
    exact ih (post_of_broken hs device r id now)

/-- The postings of a device that may stop append the lines of the first of the requests that are
admitted, and at most a piece of one more line. -/
theorem Posts.stops (h : Posts device store rs os store') (hdevice : device.Stops)
    (hstore : store = journal s file) (hwhole : s.Whole file) :
    ∃ new s' tail, s.Extends file new s' ∧ newline ∉ tail ∧
      new.map (·.transaction.request) <+: admitted s.book.keys rs ∧
      store'.file = file ++ encodeLines new ++ tail := by
  induction h generalizing s file with
  | nil store =>
    subst hstore
    exact ⟨[], s, [], .refl hwhole, List.not_mem_nil, List.nil_prefix, by simp [Store.file]⟩
  | @cons store store' rs os r id now hrest ih =>
    subst hstore
    have hfate := hwhole.post_fate hdevice r id now
    generalize (journal s file).post device r id now = next at hfate hrest ih
    cases hfate with
    | refused hr hout =>
      rw [admitted, if_neg hr]
      exact ih rfl hwhole
    | posted hr id now =>
      have hkey : s.book.hasKey (r.toTransaction id now).posting.key = false :=
        Book.hasKey_eq_false.2 hr.2
      have hproper := PostingRequest.proper_posting hr.1.key hr.1.validated id now
      obtain ⟨new, s', tail, hextends, htail, hbegins, hfile⟩ :=
        ih rfl (hwhole.grown hproper.plain_eq hkey)
      rw [Journal.Store.keys_grown hkey] at hbegins
      rw [admitted, if_pos hr]
      exact ⟨_, s', tail, .cons hkey hextends, htail, List.cons_prefix_cons.2 ⟨rfl, hbegins⟩,
        by simpa using hfile⟩
    | @stopped hne error s' hs' tail htail =>
      -- the process is gone as far as the file can tell: what it still does leaves it as it is
      rw [hrest.of_broken rfl hs']
      exact ⟨[], s, tail, .refl hwhole, htail, List.nil_prefix, by simp [Store.file]⟩

theorem Posts.sound (h : Posts .sound store rs os store') (hstore : store = journal s file)
    (hwhole : s.Whole file) :
    ∃ new s', store' = journal s' (file ++ encodeLines new) ∧ s.Extends file new s' ∧
      new.map (·.transaction.request) = admitted s.book.keys rs ∧
      ∀ summary, (os.foldl ReplaySummary.record summary).posted = summary.posted + new.length ∧
        (os.foldl ReplaySummary.record summary).failed = summary.failed := by
  induction h generalizing s file with
  | nil store =>
    subst hstore
    exact ⟨[], s, by simp, .refl hwhole, rfl, fun _ => ⟨rfl, rfl⟩⟩
  | @cons store store' rs os r id now hrest ih =>
    subst hstore
    have hfate := hwhole.post_fate Device.stops_sound r id now
    generalize (journal s file).post .sound r id now = next at hfate hrest ih
    cases hfate with
    | refused hr hout =>
      obtain ⟨new, s', hstore, hextends, hrequests, hcounts⟩ := ih rfl hwhole
      rw [admitted, if_neg hr]
      refine ⟨new, s', hstore, hextends, hrequests, fun summary => ?_⟩
      obtain ⟨hposted, hfailed⟩ := summary.record_refused hout
      rw [List.foldl_cons, (hcounts _).1, (hcounts _).2, hposted, hfailed]
      exact ⟨rfl, rfl⟩
    | posted hr id now =>
      have hkey : s.book.hasKey (r.toTransaction id now).posting.key = false :=
        Book.hasKey_eq_false.2 hr.2
      have hproper := PostingRequest.proper_posting hr.1.key hr.1.validated id now
      obtain ⟨new, s', hstore, hextends, hrequests, hcounts⟩ :=
        ih rfl (hwhole.grown hproper.plain_eq hkey)
      rw [Journal.Store.keys_grown hkey] at hrequests
      rw [admitted, if_pos hr]
      refine ⟨_, s', by simpa using hstore, .cons hkey hextends, congrArg (r :: ·) hrequests,
        fun summary => ?_⟩
      rw [List.foldl_cons, (hcounts _).1, (hcounts _).2, List.length_cons]
      exact ⟨Nat.add_right_comm .., rfl⟩
    | stopped hne => exact absurd rfl hne

end Store

namespace Engine

open Journal (encodeLines)
open PostingRequest (admitted)

variable {e : Engine} {s : Journal.Store} {file : List UInt8}

theorem Quiet.replay_sound (h : e.Quiet) (hstore : e.store = .journal s file)
    (hwhole : s.Whole file) (fresh : Nat → Uuid × Moment) (processors : Nat)
    (limits : ReplayLimits) (input : ReplayInput) :
    ∃ new s', (e.replay { fresh } processors limits input).1.store =
        .journal s' (file ++ encodeLines new) ∧ s.Extends file new s' ∧
      new.map (·.transaction.request) = admitted s.book.keys (replayed processors limits input) ∧
      ∀ summary, (e.replay { fresh } processors limits input).2 = .finished summary →
        summary.posted = new.length ∧ summary.failed = 0 := by
  obtain ⟨os, hposts, hcounted, -⟩ :=
    h.replay (s := { fresh }) Faults.mild_none processors limits input
  obtain ⟨new, s', hstore', hextends, hrequests, hcounts⟩ := hposts.sound hstore hwhole
  refine ⟨new, s', hstore', hextends, hrequests, fun summary hsummary => ?_⟩
  obtain ⟨malformed, rfl⟩ := hcounted summary hsummary
  exact ⟨(hcounts {}).1.trans (Nat.zero_add _), (hcounts {}).2⟩

/-- A replay posts the requests that are admitted. One that is stopped when the journal's file has
got so many bytes, and done again after the journal was opened again, leaves the same transactions,
up to their identifiers and times; and one that is done again after it finished posts nothing, fails
in nothing and leaves the journal as it was. -/
theorem replay_resumes {notifier : Notifier} {bytes : List UInt8}
    (h : onJournal notifier .regularFile bytes = .ok e) (notifier' : Notifier) (processors : Nat)
    (limits : ReplayLimits) (input : ReplayInput) (length : Nat)
    (fresh fresh' fresh'' : Nat → Uuid × Moment) :
    (e.replay { fresh } processors limits input).1.book.requests =
      e.book.requests ++ admitted e.book.keys (replayed processors limits input) ∧
    (∃ e', onJournal notifier' .regularFile
        (e.replay { device := .stoppedAt length, fresh := fresh' }
          processors limits input).1.store.file = .ok e' ∧
      (e'.replay { fresh := fresh'' } processors limits input).1.book.requests =
        (e.replay { fresh } processors limits input).1.book.requests) ∧
    ∀ summary, (e.replay { fresh } processors limits input).2 = .finished summary →
      ∃ e' summary', onJournal notifier' .regularFile
          (e.replay { fresh } processors limits input).1.store.file = .ok e' ∧
        (e'.replay { fresh := fresh'' } processors limits input).2 = .finished summary' ∧
        summary'.posted = 0 ∧ summary'.failed = 0 ∧
        (e'.replay { fresh := fresh'' } processors limits input).1.store =
          (e.replay { fresh } processors limits input).1.store := by
  obtain ⟨hquiet, s, file, hstore, hwhole⟩ := journal_of_onJournal h
  obtain ⟨all, s', hstore', hall, hadmitted, -⟩ :=
    hquiet.replay_sound hstore hwhole fresh processors limits input
  have hrequests : (e.replay { fresh } processors limits input).1.book.requests =
      s.book.requests ++ admitted s.book.keys (replayed processors limits input) := by
    rw [Engine.book, hstore', ← hadmitted]
    exact hall.requests
  refine ⟨?_, ?_, ?_⟩
  · rw [hrequests, Engine.book, hstore]
    rfl
  · obtain ⟨os, hposts, -⟩ := hquiet.replay (s := { device := .stoppedAt length, fresh := fresh' })
      Faults.mild_none processors limits input
    obtain ⟨first, s₁, tail, hfirst, htail, hbegins, hfile⟩ :=
      hposts.stops (Journal.Device.stops_stoppedAt length) hstore hwhole
    obtain ⟨e', hopen, hstore₁⟩ := onJournal_of_whole hfirst.whole htail notifier'
    obtain ⟨second, s₂, hstore₂, hsecond, hrest, -⟩ := (journal_of_onJournal hopen).1.replay_sound
      hstore₁ hfirst.whole fresh'' processors limits input
    refine ⟨e', by rw [hfile, hopen], ?_⟩
    rw [hrequests, Engine.book, hstore₂]
    exact hfirst.resume hsecond hbegins hrest
  · intro summary hsummary
    obtain ⟨e', hopen, hstore₁⟩ := onJournal_of_whole hall.whole List.not_mem_nil notifier'
    obtain ⟨more, s₂, hstore₂, hmore, hrest, hcounts⟩ := (journal_of_onJournal hopen).1.replay_sound
      hstore₁ hall.whole fresh'' processors limits input
    obtain rfl : more = [] := hall.again hadmitted hrest
    obtain ⟨summary', hsummary'⟩ := replay_finished hsummary e' { fresh := fresh'' }
    obtain ⟨hposted, hfailed⟩ := hcounts summary' hsummary'
    rw [List.append_nil] at hopen
    refine ⟨e', summary', by rw [hstore']; exact hopen, hsummary', hposted, hfailed, ?_⟩
    rw [hstore₂, hstore', hmore.eq_of_nil hall.whole]
    simp

def smallFile : List UInt8 :=
  0xFF :: Text.encodeChars "\na,b,5,k\nb,a,0,l\nb,a,7,k\nb,c,7,l\n".toList

theorem replay_resumes_small :
    onJournal .absent .regularFile [] = .ok { store := .journal {} [], notifier := .absent } ∧
    (∃ e', onJournal .absent .regularFile
          (replay { calm with device := .stoppedAt 100 } 1 {}
            { store := .journal {} [], notifier := .absent } (.bytes smallFile)).1.store.file =
        .ok e' ∧
      (e'.replay calm 1 {} (.bytes smallFile)).1.book.requests =
        [⟨"a", "b", .ofWord false 5, "k"⟩, ⟨"b", "c", .ofWord false 7, "l"⟩]) ∧
    ∃ e' summary, onJournal .absent .regularFile
        (replay calm 1 {} { store := .journal {} [], notifier := .absent }
          (.bytes smallFile)).1.store.file = .ok e' ∧
      (e'.replay calm 1 {} (.bytes smallFile)).2 = .finished summary ∧
      summary.posted = 0 ∧ summary.failed = 0 := by
  obtain ⟨-, ⟨e', hopen, hsame⟩, hagain⟩ := replay_resumes (onJournal_nil .absent) .absent
    1 {} (.bytes smallFile) 100 calm.fresh calm.fresh calm.fresh
  obtain ⟨e'', summary, hopen', hfinished, hposted, hfailed, -⟩ := hagain _ rfl
  refine ⟨onJournal_nil .absent, ⟨e', hopen, hsame.trans ?_⟩, e'', summary, hopen', hfinished,
    hposted, hfailed⟩
  decide +kernel

end Engine

end Bookkeeping
