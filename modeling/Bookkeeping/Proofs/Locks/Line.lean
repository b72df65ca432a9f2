import Mathlib.Data.List.Nodup
import Bookkeeping.Engine.Locks

/-! The line at the lock of an account: in front who holds it, behind those who wait for it. Who
asks goes to the end of the line, who leaves is taken out of it, and whoever is then in front holds
the lock. -/
namespace Bookkeeping

namespace AccountLock

variable {ω : Type} {l : AccountLock ω} {w : ω}

/-- Who holds the lock, and behind those who wait for it. -/
def line (l : AccountLock ω) : List ω := l.holder.toList ++ l.waiting

/-- Nobody waits for a lock that is free. -/
def Served (l : AccountLock ω) : Prop := l.holder = none → l.waiting = []

theorem Served.holder_eq (h : l.Served) : l.holder = l.line.head? := by
  unfold line
  cases hholder : l.holder with
  | none => simp [h hholder]
  | some v => rfl

@[simp] theorem account_requestedBy : (l.requestedBy w).account = l.account := by
  unfold requestedBy
  split <;> rfl

theorem Served.line_requestedBy (h : l.Served) : (l.requestedBy w).line = l.line ++ [w] := by
  unfold requestedBy line
  cases hholder : l.holder with
  | none => simp [h hholder]
  | some v => simp

theorem Served.requestedBy (h : l.Served) : (l.requestedBy w).Served := by
  intro hnone
  unfold AccountLock.requestedBy at hnone ⊢
  cases hholder : l.holder with
  | none => simp [h hholder]
  | some v => simp [hholder] at hnone

variable [DecidableEq ω]

@[simp] theorem account_leftBy : (l.leftBy w).account = l.account := by
  unfold leftBy
  split
  · split <;> rfl
  · rfl

theorem line_leftBy (hnodup : l.line.Nodup) : (l.leftBy w).line = l.line.erase w := by
  unfold leftBy
  unfold line at hnodup ⊢
  cases hholder : l.holder with
  | none =>
    rw [hholder] at hnodup
    simpa [bne] using (hnodup.erase_eq_filter w).symm
  | some v =>
    rw [hholder] at hnodup
    by_cases hv : v = w
    · subst hv
      cases l.waiting <;> simp
    · have hwaiting : l.waiting.Nodup := (List.nodup_cons.1 hnodup).2
      simp [hv, hwaiting.erase_eq_filter]

theorem leftBy_eq_self (h : w ∉ l.line) : l.leftBy w = l := by
  rw [line, List.mem_append, Option.mem_toList, not_or] at h
  have hwaiting : l.waiting.filter (· != w) = l.waiting := by
    refine List.filter_eq_self.2 fun v hv => bne_iff_ne.2 ?_
    rintro rfl
    exact h.2 hv
  rw [leftBy, if_neg (by simpa using h.1), hwaiting]

theorem Served.leftBy (h : l.Served) : (l.leftBy w).Served := by
  intro hnone
  unfold AccountLock.leftBy at hnone ⊢
  cases hholder : l.holder with
  | none => simp [h hholder]
  | some v =>
    by_cases hv : v = w
    · cases hwaiting : l.waiting with
      | nil => simp [hv]
      | cons next rest => simp [hholder, hv, hwaiting] at hnone
    · simp [hholder, hv] at hnone

end AccountLock

namespace Locks

variable {ω : Type} {ls : Locks ω} {a b : String} {w : ω}

def accounts (ls : Locks ω) : List String := ls.registered.map (·.account)

/-- The line at an account's lock; nobody stands at one that is not registered. -/
def line (ls : Locks ω) (account : String) : List ω := ((ls.find? account).map (·.line)).getD []

/-- Each account has one lock, and nobody waits for a lock that is free. -/
structure Orderly (ls : Locks ω) : Prop where
  accounts : ls.accounts.Nodup
  served : ∀ l ∈ ls.registered, l.Served

theorem orderly_empty : ({} : Locks ω).Orderly := ⟨List.nodup_nil, by simp⟩

theorem account_of_find? {l : AccountLock ω} (h : ls.find? a = some l) : l.account = a := by
  simpa using List.find?_some h

theorem mem_accounts_iff : a ∈ ls.accounts ↔ (ls.find? a).isSome = true := by
  simp [accounts, find?]

theorem Orderly.find?_eq (h : ls.Orderly) {l : AccountLock ω} (hl : l ∈ ls.registered) :
    ls.find? l.account = some l := by
  cases hfind : ls.find? l.account with
  | none =>
    have := List.find?_eq_none.1 hfind l hl
    simp at this
  | some l' =>
    have hmem : l' ∈ ls.registered := List.mem_of_find?_eq_some hfind
    rw [List.inj_on_of_nodup_map h.accounts hmem hl (account_of_find? hfind)]

theorem Orderly.holder_eq (h : ls.Orderly) (a : String) : ls.holder a = (ls.line a).head? := by
  unfold holder line
  cases hfind : ls.find? a with
  | none => rfl
  | some l => exact (h.served l (List.mem_of_find?_eq_some hfind)).holder_eq

theorem mem_accounts_of_mem_line (h : w ∈ ls.line a) : a ∈ ls.accounts := by
  unfold line at h
  rw [mem_accounts_iff]
  cases hfind : ls.find? a with
  | none => simp [hfind] at h
  | some l => rfl

theorem find?_map_at {f : AccountLock ω → AccountLock ω} (hf : ∀ l, (f l).account = l.account)
    (a b : String) :
    (⟨ls.registered.map fun l => if l.account == a then f l else l⟩ : Locks ω).find? b =
      if b = a then (ls.find? b).map f else ls.find? b := by
  have hsame : ((fun l : AccountLock ω => l.account == b) ∘
      fun l => if l.account == a then f l else l) = fun l => l.account == b := by
    funext l
    simp only [Function.comp_apply]
    split
    · rw [hf]
    · rfl
  unfold find?
  rw [List.find?_map, hsame]
  cases hfind : ls.registered.find? (·.account == b) with
  | none => simp
  | some l =>
    have hl : l.account = b := account_of_find? hfind
    by_cases hb : b = a <;> simp [hl, hb]

theorem accounts_map_at {f : AccountLock ω → AccountLock ω} (hf : ∀ l, (f l).account = l.account)
    (a : String) :
    (⟨ls.registered.map fun l => if l.account == a then f l else l⟩ : Locks ω).accounts =
      ls.accounts := by
  unfold accounts
  rw [List.map_map]
  apply List.map_congr_left
  intro l _
  simp only [Function.comp_apply]
  split
  · exact hf l
  · rfl

theorem accounts_request : (ls.request a w).accounts =
    if a ∈ ls.accounts then ls.accounts else ls.accounts ++ [a] := by
  unfold request
  by_cases hknown : (ls.find? a).isSome = true
  · rw [if_pos hknown, if_pos (mem_accounts_iff.2 hknown)]
    exact accounts_map_at (fun _ => AccountLock.account_requestedBy) a
  · rw [if_neg hknown, if_neg (mem_accounts_iff.not.2 hknown)]
    simp [accounts]

theorem Orderly.request (h : ls.Orderly) : (ls.request a w).Orderly where
  accounts := by
    rw [accounts_request]
    split
    · exact h.accounts
    · next hnew =>
      refine List.nodup_append.2 ⟨h.accounts, by simp, ?_⟩
      rintro b hb _ hc rfl
      rw [List.mem_singleton] at hc
      exact hnew (hc ▸ hb)
  served := by
    unfold Locks.request
    split
    · intro l hl
      obtain ⟨l', hl', rfl⟩ := List.mem_map.1 hl
      split
      · exact (h.served l' hl').requestedBy
      · exact h.served l' hl'
    · intro l hl
      rw [List.mem_append, List.mem_singleton] at hl
      cases hl with
      | inl hl => exact h.served l hl
      | inr hl => simp [hl, AccountLock.Served]

theorem Orderly.line_request (h : ls.Orderly) :
    (ls.request a w).line b = if b = a then ls.line a ++ [w] else ls.line b := by
  unfold Locks.request line
  cases hfind : ls.find? a with
  | some l =>
    have hserved := h.served l (List.mem_of_find?_eq_some hfind)
    rw [Option.isSome_some, if_pos rfl, find?_map_at fun _ => AccountLock.account_requestedBy]
    by_cases hb : b = a
    · simp [hb, hfind, hserved.line_requestedBy]
    · simp [hb]
  | none =>
    rw [Option.isSome_none, if_neg Bool.false_ne_true]
    unfold find? at hfind ⊢
    rw [List.find?_append]
    by_cases hb : b = a
    · simp [hb, hfind, AccountLock.line]
    · simp [hb, Ne.symm hb]

theorem Orderly.holder_of_request (h : ls.Orderly) {v : ω} (hv : v ≠ w)
    (hb : (ls.request a w).holder b = some v) : ls.holder b = some v := by
  rw [h.request.holder_eq, h.line_request] at hb
  rw [h.holder_eq]
  split at hb
  · next hab =>
    subst hab
    cases hline : ls.line b with
    | nil =>
      rw [hline] at hb
      exact absurd (Option.some.inj hb).symm hv
    | cons first rest =>
      rw [hline] at hb
      exact hb
  · exact hb

/-- In the line of each account stand those that have asked for its lock, each of them once. -/
structure Kept (ls : Locks ω) (asked : ω → List String) : Prop where
  orderly : ls.Orderly
  nodup : ∀ a, (ls.line a).Nodup
  mem_iff : ∀ a w, w ∈ ls.line a ↔ a ∈ asked w

variable {asked asked' : ω → List String}

theorem kept_empty : ({} : Locks ω).Kept fun _ => [] :=
  ⟨orderly_empty, fun _ => List.nodup_nil, by simp [line, find?]⟩

theorem Kept.mem_accounts (h : ls.Kept asked) (ha : a ∈ asked w) : a ∈ ls.accounts :=
  mem_accounts_of_mem_line ((h.mem_iff a w).2 ha)

theorem Kept.holder_isSome (h : ls.Kept asked) (ha : a ∈ asked w) :
    ∃ v, ls.holder a = some v := by
  have hmem : w ∈ ls.line a := (h.mem_iff a w).2 ha
  rw [h.orderly.holder_eq]
  cases hline : ls.line a with
  | nil => simp [hline] at hmem
  | cons v rest => exact ⟨v, rfl⟩

theorem Kept.asked_of_holder (h : ls.Kept asked) (ha : ls.holder a = some w) : a ∈ asked w := by
  rw [h.orderly.holder_eq] at ha
  exact (h.mem_iff a w).1 (List.mem_of_mem_head? ha)

theorem Kept.request (h : ls.Kept asked) (hnew : a ∉ asked w)
    (hasked : ∀ v b, b ∈ asked' v ↔ b ∈ asked v ∨ v = w ∧ b = a) :
    (ls.request a w).Kept asked' where
  orderly := h.orderly.request
  nodup b := by
    rw [h.orderly.line_request]
    split
    · refine List.nodup_append.2 ⟨h.nodup a, by simp, ?_⟩
      rintro v hv _ hw rfl
      rw [List.mem_singleton] at hw
      exact hnew ((h.mem_iff a w).1 (hw ▸ hv))
    · exact h.nodup b
  mem_iff b v := by
    rw [h.orderly.line_request, hasked]
    split
    · next hb => simp [hb, h.mem_iff]
    · next hb => simp [hb, h.mem_iff]

variable [DecidableEq ω]

@[simp] theorem accounts_leave : (ls.leave a w).accounts = ls.accounts :=
  accounts_map_at (fun _ => AccountLock.account_leftBy) a

theorem Orderly.leave (h : ls.Orderly) : (ls.leave a w).Orderly where
  accounts := by
    rw [accounts_leave]
    exact h.accounts
  served := by
    intro l hl
    obtain ⟨l', hl', rfl⟩ := List.mem_map.1 hl
    split
    · exact (h.served l' hl').leftBy
    · exact h.served l' hl'

theorem line_leave (hnodup : (ls.line a).Nodup) :
    (ls.leave a w).line b = if b = a then (ls.line a).erase w else ls.line b := by
  have hsame (l : AccountLock ω) : (l.leftBy w).account = l.account := AccountLock.account_leftBy
  unfold leave line
  rw [find?_map_at hsame]
  by_cases hb : b = a
  · subst hb
    unfold line at hnodup
    cases hfind : ls.find? b with
    | none => simp
    | some l =>
      rw [hfind] at hnodup
      simpa using AccountLock.line_leftBy hnodup
  · simp [hb]

theorem Orderly.leave_eq_self (h : ls.Orderly) (hw : w ∉ ls.line a) : ls.leave a w = ls := by
  have hself (l : AccountLock ω) (hl : l ∈ ls.registered) :
      (if l.account == a then l.leftBy w else l) = l := by
    split
    · next ha =>
      rw [← beq_iff_eq.1 ha, line, h.find?_eq hl] at hw
      exact AccountLock.leftBy_eq_self hw
    · rfl
  rw [Locks.leave, List.map_congr_left hself, List.map_id']

theorem Kept.leave (h : ls.Kept asked)
    (hasked : ∀ v b, b ∈ asked' v ↔ b ∈ asked v ∧ ¬(v = w ∧ b = a)) :
    (ls.leave a w).Kept asked' where
  orderly := h.orderly.leave
  nodup b := by
    rw [line_leave (h.nodup a)]
    split
    · exact (h.nodup a).erase w
    · exact h.nodup b
  mem_iff b v := by
    rw [line_leave (h.nodup a), hasked]
    split
    · next hb => rw [(h.nodup a).mem_erase_iff, h.mem_iff]; simp [hb, and_comm]
    · next hb => simp [hb, h.mem_iff]

theorem Kept.leaveAll {accounts : List String} (h : ls.Kept asked)
    (hasked : ∀ v b, b ∈ asked' v ↔ b ∈ asked v ∧ ¬(v = w ∧ b ∈ accounts)) :
    (accounts.foldl (fun ls a => ls.leave a w) ls).Kept asked' := by
  induction accounts generalizing ls asked with
  | nil => exact ⟨h.orderly, h.nodup, by simpa [hasked] using h.mem_iff⟩
  | cons a accounts ih =>
    have hfirst : (ls.leave a w).Kept fun v => (asked v).filter fun b => ¬(v = w ∧ b = a) :=
      h.leave fun v b => by rw [List.mem_filter, decide_eq_true_iff]
    refine ih hfirst fun v b => ?_
    rw [hasked, List.mem_filter, decide_eq_true_iff, List.mem_cons]
    tauto

theorem line_leaveAll {accounts : List String} (hnodup : ∀ a, (ls.line a).Nodup) :
    (accounts.foldl (fun ls a => ls.leave a w) ls).line b =
      if b ∈ accounts then (ls.line b).erase w else ls.line b := by
  induction accounts generalizing ls with
  | nil => simp
  | cons a accounts ih =>
    have hfirst (b : String) :
        (ls.leave a w).line b = if b = a then (ls.line a).erase w else ls.line b :=
      line_leave (hnodup a)
    have hnodup' (b : String) : ((ls.leave a w).line b).Nodup := by
      rw [hfirst]
      split
      · exact (hnodup a).erase w
      · exact hnodup b
    rw [List.foldl_cons, ih hnodup', hfirst]
    by_cases hb : b = a
    · subst hb
      have hgone : w ∉ (ls.line b).erase w := (hnodup b).not_mem_erase
      simp [List.erase_of_not_mem hgone]
    · simp [hb]

/-- What happens at the locks at one time: nothing, somebody asks for one of them, or somebody
leaves some of them. -/
inductive Turned (ls : Locks ω) : Locks ω → Prop where
  | still : Turned ls ls
  | asked (a : String) (w : ω) : Turned ls (ls.request a w)
  | left (accounts : List String) (w : ω) :
    Turned ls (accounts.foldl (fun ls a => ls.leave a w) ls)

/-- Who holds a lock and does not give it up goes on to hold it. -/
theorem Kept.holder_turned {ls' : Locks ω} (h : ls.Kept asked) (h' : ls'.Kept asked')
    (hturned : ls.Turned ls') (ha : ls.holder a = some w) (hasked : a ∈ asked' w) :
    ls'.holder a = some w := by
  rw [h.orderly.holder_eq, List.head?_eq_some_iff] at ha
  obtain ⟨rest, hline⟩ := ha
  have hmem : w ∈ ls'.line a := (h'.mem_iff a w).2 hasked
  rw [h'.orderly.holder_eq]
  cases hturned with
  | still => rw [hline, List.head?_cons]
  | asked b v =>
    rw [h.orderly.line_request]
    split
    · next hb => rw [← hb, hline, List.cons_append, List.head?_cons]
    · rw [hline, List.head?_cons]
  | left accounts v =>
    rw [line_leaveAll h.nodup, hline] at hmem ⊢
    split
    · next hin =>
      rw [if_pos hin] at hmem
      by_cases hv : w = v
      · have hrest : w ∉ rest := (List.nodup_cons.1 (hline ▸ h.nodup a)).1
        subst hv
        rw [List.erase_cons_head] at hmem
        exact absurd hmem hrest
      · rw [List.erase_cons_tail (by simpa using hv), List.head?_cons]
    · rw [List.head?_cons]

theorem accounts_leaveAll (accounts : List String) (w : ω) :
    (accounts.foldl (fun ls a => ls.leave a w) ls).accounts = ls.accounts := by
  induction accounts generalizing ls with
  | nil => rfl
  | cons a accounts ih => rw [List.foldl_cons, ih, accounts_leave]

theorem Kept.accounts_turned {ls' : Locks ω} (h : ls.Kept asked) (h' : ls'.Kept asked')
    (hturned : ls.Turned ls') : ls'.accounts = ls.accounts ∨
      ∃ a w, a ∉ ls.accounts ∧ ls'.accounts = ls.accounts ++ [a] ∧
        a ∈ asked' w ∧ a ∉ asked w := by
  cases hturned with
  | still => exact .inl rfl
  | left accounts w => exact .inl (accounts_leaveAll accounts w)
  | asked a w =>
    have hline : w ∈ (ls.request a w).line a := by
      rw [h.orderly.line_request, if_pos rfl]
      exact List.mem_append_right _ (List.mem_singleton_self w)
    by_cases hknown : a ∈ ls.accounts
    · exact .inl (by rw [accounts_request, if_pos hknown])
    · refine .inr ⟨a, w, hknown, by rw [accounts_request, if_neg hknown],
        (h'.mem_iff a w).1 hline, fun ha => hknown (h.mem_accounts ha)⟩

end Locks

end Bookkeeping
