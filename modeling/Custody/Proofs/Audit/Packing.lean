import Custody.Proofs.Audit.Archive
import Mathlib.Data.List.Induction

/-! Lines packed into files: the next file begins only before a line for which the current one has no room. -/
namespace Custody.Audit

def bytesOf (lines : List Text) : Nat := (lines.flatMap lineBytes).length

/-- A file that holds something has no room for a line. -/
def Exceeds (limit : Nat) (file : List Text) (line : Text) : Prop :=
  0 < bytesOf file ∧ limit < bytesOf file + (lineBytes line).length

instance (limit : Nat) (file : List Text) (line : Text) : Decidable (Exceeds limit file line) :=
  inferInstanceAs (Decidable (_ ∧ _))

/-- The lines in some files: those that are sealed, and the current one. -/
structure Files where
  full : List (List Text)
  current : List Text
deriving DecidableEq

namespace Files

def all (s : Files) : List (List Text) := s.full ++ [s.current]

/-- One more line goes to the current file, or it begins the next one. -/
def add (limit : Nat) (s : Files) (line : Text) : Files :=
  if Exceeds limit s.current line then ⟨s.all, [line]⟩ else ⟨s.full, s.current ++ [line]⟩

/-- The files that come of lines, one after the other. -/
def pack (limit : Nat) (lines : List Text) : Files := lines.foldl (add limit) ⟨[], []⟩

end Files

theorem bytesOf_concat (file : List Text) (line : Text) :
    bytesOf (file ++ [line]) = bytesOf file + (lineBytes line).length := by
  rw [bytesOf, bytesOf, List.flatMap_append, List.length_append, List.flatMap_singleton]

theorem length_lineBytes_pos (line : Text) : 0 < (lineBytes line).length := by
  have hbreak : lineBytes line = line.flatMap Utf8.encodePoint ++ Utf8.encodePoint '\n' := List.flatMap_append
  rw [hbreak, List.length_append]
  exact Nat.add_pos_right _ (by decide)

/-- Only a file without lines is empty. -/
theorem bytesOf_pos {file : List Text} : 0 < bytesOf file ↔ file ≠ [] := by
  constructor
  · rintro h rfl
    exact Nat.lt_irrefl 0 h
  · intro h
    rw [← List.dropLast_concat_getLast h, bytesOf_concat]
    exact Nat.add_pos_right _ (length_lineBytes_pos _)

namespace Files
variable (limit : Nat) (lines : List Text)

theorem pack_concat (line : Text) : pack limit (lines ++ [line]) = (pack limit lines).add limit line :=
  List.foldl_concat ..

/-- What is kept by a line that begins a file, and by one that goes to the current file, holds of all packed files. -/
theorem pack_induction {P : List Text → Files → Prop} (start : P [] ⟨[], []⟩)
    (begun : ∀ lines s line, P lines s → Exceeds limit s.current line → P (lines ++ [line]) ⟨s.all, [line]⟩)
    (filled : ∀ lines s line, P lines s → ¬Exceeds limit s.current line →
      P (lines ++ [line]) ⟨s.full, s.current ++ [line]⟩) : P lines (pack limit lines) := by
  induction lines using List.reverseRecOn with
  | nil => exact start
  | append_singleton lines line ih =>
    rw [pack_concat, add]
    split
    · next h => exact begun _ _ _ ih h
    · next h => exact filled _ _ _ ih h

theorem flatten_pack : (pack limit lines).all.flatten = lines := by
  apply pack_induction (P := fun lines s => s.all.flatten = lines)
  · rfl
  · intro lines s line ih _
    simp [all, ← ih]
  · intro lines s line ih _
    simp [all, ← ih]

/-- No file is sealed empty. -/
theorem ne_nil_of_mem_full : ∀ file ∈ (pack limit lines).full, file ≠ [] := by
  apply pack_induction (P := fun _ s => ∀ file ∈ s.full, file ≠ [])
  · nofun
  · intro lines s line ih h file hfile
    rcases List.mem_append.1 hfile with hfile | hfile
    · exact ih file hfile
    · rw [List.mem_singleton.1 hfile]
      exact bytesOf_pos.1 h.1
  · intro lines s line ih _
    exact ih

/-- A file keeps to the limit, unless it holds a single line. -/
theorem bytesOf_le_of_mem_all :
    ∀ file ∈ (pack limit lines).all, bytesOf file ≤ limit ∨ ∃ line, file = [line] := by
  apply pack_induction (P := fun _ s => ∀ file ∈ s.all, bytesOf file ≤ limit ∨ ∃ line, file = [line])
  · intro file hfile
    rw [List.mem_singleton.1 hfile]
    exact Or.inl (Nat.zero_le _)
  · intro lines s line ih _ file hfile
    rcases List.mem_append.1 hfile with hfile | hfile
    · exact ih file hfile
    · exact Or.inr ⟨line, List.mem_singleton.1 hfile⟩
  · intro lines s line ih h file hfile
    rcases List.mem_append.1 hfile with hfile | hfile
    · exact ih file (List.mem_append_left _ hfile)
    · rw [List.mem_singleton.1 hfile, bytesOf_concat]
      by_cases hempty : s.current = []
      · exact Or.inr ⟨line, by rw [hempty]; rfl⟩
      · have hfits : ¬limit < bytesOf s.current + (lineBytes line).length := fun hlt =>
          h ⟨bytesOf_pos.2 hempty, hlt⟩
        exact Or.inl (Nat.not_lt.1 hfits)

end Files

end Custody.Audit
