import Bookkeeping.Proofs.Engine.Ledger
import Bookkeeping.Proofs.Engine.Resume

/-! Steps on a store that fails in nothing: a task goes on, finds its key, is refused because of its
request, or posts under a key that is new. -/
namespace Bookkeeping

def Store.Writable : Store → Prop
  | .memory _ => True
  | .journal s _ => s.broken = false

namespace Store

variable {store : Store} {p : Posting}

theorem Writable.save_new (h : store.Writable) (hkey : store.book.hasKey p.key = false) :
    (store.save .sound p).result = .ok .saved ∧
      (store.save .sound p).store.book = (store.book.insert p).2 ∧
      (store.save .sound p).store.Writable := by
  cases store with
  | memory book =>
    have hinsert : book.insert p = (.saved, (book.insert p).2) := Book.insert_eq_saved hkey
    rw [Store.save, hinsert]
    exact ⟨rfl, rfl, trivial⟩
  | journal s file =>
    have hbroken : s.broken = false := h
    have hinsert : s.book.insert p = (.saved, (s.book.insert p).2) := Book.insert_eq_saved hkey
    have hcommit : s.commit .sound file p =
        ⟨.ok .saved, s.grown p, Journal.overwritten file s.cursor (Journal.encodeLine p), none⟩ := by
      rw [Journal.Store.commit, if_neg (by simp [hbroken]), hinsert]
      rfl
    simp only [Store.save, hcommit]
    exact ⟨trivial, rfl, hbroken⟩

theorem Writable.save_known (h : store.Writable) (hkey : store.book.hasKey p.key = true) :
    (store.save .sound p).result = .ok .duplicateKey ∧ (store.save .sound p).store = store := by
  cases store with
  | memory book =>
    have hinsert : book.insert p = (.duplicateKey, book) := Book.insert_of_hasKey hkey
    rw [Store.save, hinsert]
    exact ⟨rfl, rfl⟩
  | journal s file =>
    have hbroken : s.broken = false := h
    have hinsert : s.book.insert p = (.duplicateKey, s.book) := Book.insert_of_hasKey hkey
    have hcommit : s.commit .sound file p = ⟨.ok .duplicateKey, s, file, none⟩ := by
      rw [Journal.Store.commit, if_neg (by simp [hbroken]), hinsert]
    simp only [Store.save, hcommit]
    exact ⟨trivial, trivial⟩

end Store

/-- Nothing goes wrong in a step: the store and its device do what they are asked to. -/
structure Surroundings.Sound (s : Surroundings) : Prop where
  mild : s.faults.Mild
  device : s.device = .sound

/-- What a step that nothing goes wrong in makes of a task and of the store. -/
inductive Clean (store : Store) (t : Task) : Stage → Store → Prop where
  | goesOn {stage : Stage} (hopen : ∀ outcome, stage ≠ .finished outcome) : Clean store t stage store
  | known (h : store.book.hasKey t.request.key = true) : Clean store t (.finished .duplicate) store
  | refused (error : Error) (h : ¬t.request.Valid) :
    Clean store t (.finished (.failed error)) store
  | posted (h : t.request.Valid) (hkey : store.book.hasKey t.request.key = false) (id : Uuid)
    (now : Moment) {store' : Store} (hwritable : store'.Writable)
    (hbook : store'.book = (store.book.insert (t.request.toTransaction id now).posting).2) :
    Clean store t (.finished (.posted (t.request.toTransaction id now))) store'

namespace Engine

variable {s : Surroundings} {e e' : Engine} {i : Nat} {t : Task}

theorem finish_clean {outcome : Outcome} (h : Clean e.store t (.finished outcome) e.store) :
    ∃ stage, (e.finish i t outcome).tasks = e.tasks.modify i (fun t => { t with stage }) ∧
      Clean e.store t stage (e.finish i t outcome).store := by
  refine ⟨_, tasks_finish .., ?_⟩
  rwa [store_finish]

theorem stepSave_clean (hs : s.Sound) (hwritable : e.store.Writable) (hvalid : t.request.Valid) :
    ∃ stage, (stepSave s e i t).tasks = e.tasks.modify i (fun t => { t with stage }) ∧
      Clean e.store t stage (stepSave s e i t).store := by
  rw [stepSave_eq rfl rfl]
  obtain ⟨log, heq⟩ := save_eq (e := e.counted)
    (t.request.toTransaction (s.fresh e.made).1 (s.fresh e.made).2).posting hs.mild.save
  simp only [hs.mild.panics, Bool.false_eq_true, if_false, heq, hs.device]
  refine ⟨_, (tasks_finish ..).trans (congrArg _ (tasks_announce ..)), ?_⟩
  rw [store_finish, store_announce]
  cases hkey : e.store.book.hasKey t.request.key with
  | true =>
    obtain ⟨hresult, hstore⟩ := hwritable.save_known
      (p := (t.request.toTransaction (s.fresh e.made).1 (s.fresh e.made).2).posting) hkey
    simp only [counted, hresult, hstore]
    exact .known hkey
  | false =>
    obtain ⟨hresult, hbook, hwritable'⟩ := hwritable.save_new
      (p := (t.request.toTransaction (s.fresh e.made).1 (s.fresh e.made).2).posting) hkey
    simp only [counted, hresult]
    exact .posted hvalid hkey _ _ hwritable' hbook

theorem step_clean (hs : s.Sound) (hwritable : e.store.Writable) (htask : e.tasks[i]? = some t)
    (hchecked : t.Checked) (h : e.step s i = some e') :
    ∃ stage, e'.tasks = e.tasks.modify i (fun t => { t with stage }) ∧
      Clean e.store t stage e'.store := by
  have hread := hasKey_of_mild (e := e) hs.mild t.request.key
  cases step_stepped htask h with
  | keyless _ hblank =>
    refine finish_clean (.refused _ fun hvalid => ?_)
    rw [hvalid.key] at hblank
    cases hblank
  | unread _ herror =>
    rw [hread] at herror
    cases herror
  | known _ hknown => exact finish_clean (.known (hasKey_eq_ok_true hknown))
  | invalid _ hinvalid =>
    refine finish_clean (.refused _ fun hvalid => ?_)
    rw [hvalid.validated] at hinvalid
    cases hinvalid
  | gotFirst =>
    refine ⟨_, rfl, .goesOn ?_⟩
    cases t.secondAccount? <;> simp
  | checked | validated | askedFirst | askedSecond | gotSecond | single =>
    exact ⟨_, rfl, .goesOn (by simp)⟩
  | saved hstage =>
    rw [Task.Checked, hstage] at hchecked
    exact stepSave_clean hs hwritable ⟨hchecked.1, hchecked.2⟩

theorem stage_eq_of_modify {ts : List Task} {stage stage' : Stage} (htask : ts[i]? = some t)
    (h : (ts.modify i fun t => { t with stage }) = ts.modify i fun t => { t with stage := stage' }) :
    stage = stage' := by
  have hnow := congrArg (·[i]?) h
  simp only [List.getElem?_modify_eq, htask] at hnow
  exact congrArg Task.stage (Option.some.inj hnow)

/-- What a step that nothing goes wrong in does to its task and to the store. -/
structure SoundStep (e e' : Engine) (i : Nat) (t : Task) (stage : Stage) : Prop where
  tasks : e'.tasks = e.tasks.modify i fun t => { t with stage }
  checked : ({ t with stage } : Task).Checked
  clean : Clean e.store t stage e'.store

theorem soundStep_of_step (hs : s.Sound) (hwritable : e.store.Writable)
    (htask : e.tasks[i]? = some t) (hchecked : t.Checked) (h : e.step s i = some e') :
    ∃ stage, SoundStep e e' i t stage := by
  obtain ⟨stage, htasks, hclean⟩ := step_clean hs hwritable htask hchecked h
  obtain ⟨t', stage', htask', -, htasks', hadvance⟩ := step_advance h
  obtain rfl : t = t' := Option.some.inj (htask.symm.trans htask')
  obtain rfl := stage_eq_of_modify htask (htasks.symm.trans htasks')
  exact ⟨stage, htasks, hadvance.checked_task hchecked, hclean⟩

end Engine

end Bookkeeping
