import Mathlib.Data.String.Basic
import Bookkeeping.Command.Directory

/-! The files of a directory. What is written at a path is found there, and nothing is changed
elsewhere; and a path that leads to a file leads to it whatever files there are. -/
namespace Bookkeeping.Command.Directory

variable {d : Directory} {name other : String} {bytes : List UInt8} {path path' : String}

def rewritten (files : List (String × List UInt8)) (name : String) (bytes : List UInt8) :
    List (String × List UInt8) :=
  files.map fun f => if f.1 == name then (name, bytes) else f

theorem lookup_rewritten_self {files : List (String × List UInt8)}
    (h : (files.lookup name).isSome) : (rewritten files name bytes).lookup name = some bytes := by
  induction files with
  | nil => cases h
  | cons f files ih =>
    obtain ⟨n, b⟩ := f
    by_cases hn : n = name
    · simp [rewritten, hn]
    · have hne : (name == n) = false := beq_eq_false_iff_ne.2 (Ne.symm hn)
      rw [List.lookup_cons, hne] at h
      simpa [rewritten, hn, List.lookup_cons, hne] using ih h

theorem lookup_rewritten_of_ne (files : List (String × List UInt8)) (h : other ≠ name) :
    (rewritten files name bytes).lookup other = files.lookup other := by
  induction files with
  | nil => rfl
  | cons f files ih =>
    obtain ⟨n, b⟩ := f
    by_cases hn : n = name
    · subst hn
      have hne : (other == n) = false := beq_eq_false_iff_ne.2 h
      simpa [rewritten, List.lookup_cons, hne] using ih
    · rw [List.lookup_cons, ← ih]
      simp [rewritten, hn, List.lookup_cons]

theorem file?_put_self (d : Directory) (name : String) (bytes : List UInt8) :
    (d.put name bytes).file? name = some bytes := by
  unfold put
  split
  · next hthere => exact lookup_rewritten_self hthere
  · next hmissing =>
    have hnone : d.files.lookup name = none := Option.not_isSome_iff_eq_none.1 hmissing
    simp [file?, List.lookup_append, hnone]

theorem file?_put_of_ne (d : Directory) (bytes : List UInt8) (h : other ≠ name) :
    (d.put name bytes).file? other = d.file? other := by
  unfold put
  split
  · exact lookup_rewritten_of_ne d.files h
  · have hne : (other == name) = false := beq_eq_false_iff_ne.2 h
    simp [file?, List.lookup_append, List.lookup_cons, hne]

theorem place_of_file {p : Position} {part : String} {isLast : Bool}
    (h : d.place p part isLast = .file name) (d' : Directory) :
    d'.place p part isLast = .file name := by
  unfold place at h ⊢
  split at h
  · cases h
  · next hshort =>
    rw [if_neg hshort]
    split at h
    · next hinside =>
      rw [if_pos hinside]
      split at h
      · next hlast => rw [if_pos hlast, h]
      · split at h <;> cases h
    · split at h
      · split at h <;> cases h
      · cases h

/-- Which files there are makes no difference to a path that leads to one. -/
theorem walk_of_file {slash : Bool} {p : Position} {parts : List String}
    (h : d.walk slash p parts = .file name) (d' : Directory) :
    d'.walk slash p parts = .file name := by
  induction parts generalizing p with
  | nil => cases h
  | cons part rest ih =>
    unfold walk at h ⊢
    cases henter : p.enter? part with
    | some p' =>
      simp only [henter] at h ⊢
      split_ifs at h ⊢ <;> exact ih h
    | none =>
      simp only [henter] at h ⊢
      split_ifs at h ⊢
      · exact ih h
      · exact ih h
      · exact place_of_file h d'

theorem locate_of_file (h : d.locate path = .file name) (d' : Directory) :
    d'.locate path = .file name := by
  unfold locate at h ⊢
  split_ifs at h ⊢
  · exact walk_of_file h d'
  · exact walk_of_file h d'

theorem locate_ne (hfile : d.locate path = .file name) (h : d.locate path' ≠ d.locate path)
    (d' : Directory) : d'.locate path' ≠ d'.locate path := by
  rw [locate_of_file hfile d']
  intro hsame
  exact h (by rw [locate_of_file hsame d, hfile])

theorem target_eq_regularFile :
    d.target path = .regularFile ↔ ∃ name, d.locate path = .file name := by
  unfold target
  cases d.locate path <;> simp [Journal.Target.directory, Journal.Target.missing,
    Journal.Target.notDirectory, Journal.Target.nameTooLong]

theorem target_of_regularFile (h : d.target path = .regularFile) (d' : Directory) :
    d'.target path = .regularFile := by
  obtain ⟨name, hname⟩ := target_eq_regularFile.1 h
  exact target_eq_regularFile.2 ⟨name, locate_of_file hname d'⟩

theorem bytesAt_putAt (h : d.locate path = .file name) (bytes : List UInt8) :
    (d.putAt path bytes).bytesAt path = bytes := by
  unfold bytesAt
  rw [locate_of_file h]
  simp [putAt, h, file?_put_self]

theorem bytesAt_putAt_of_ne (h : d.locate path' ≠ d.locate path) (bytes : List UInt8) :
    (d.putAt path bytes).bytesAt path' = d.bytesAt path' := by
  unfold putAt
  split
  · next name hname =>
    unfold bytesAt
    cases hother : d.locate path' with
    | file other =>
      have hne : other ≠ name := fun heq => h (by rw [hother, hname, heq])
      rw [locate_of_file hother]
      simp only [file?_put_of_ne d bytes hne]
    | _ =>
      -- a file is not made elsewhere, where something else was on the way
      cases hthere : (d.put name bytes).locate path' with
      | file other =>
        rw [locate_of_file hthere d] at hother
        cases hother
      | _ => rfl
  · rfl

end Bookkeeping.Command.Directory
