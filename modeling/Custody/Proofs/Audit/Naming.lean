import Custody.Audit.Files
import Custody.Proofs.Data.Json
import Custody.Proofs.Storage.Places
import Mathlib.Data.List.Perm.Subperm

/-! The names of the files of a trail: they differ from each other, and a free one is always found. -/
namespace Custody

theorem CodePoint.IsPlain.isNameable {c : CodePoint} (h : c.IsPlain) : c.isNameable = true := by
  obtain ⟨hl, hu⟩ := h
  have hs : c.isSurrogate = false := by
    have : ¬0xD800 ≤ c.val := by omega
    simp [isSurrogate, this]
  have hz : ¬c.val = 0 := by omega
  simp [CodePoint.isNameable, hs, hz]

namespace Text

private theorem decDigit_inj {m n : Nat} (h : CodePoint.decDigit m = CodePoint.decDigit n) :
    m % 10 = n % 10 := by
  have hv : 0x30 + m % 10 = 0x30 + n % 10 := congrArg CodePoint.val h
  omega

private theorem ofNat_ne_nil (n : Nat) : ofNat n ≠ [] := by
  rw [ofNat]
  split <;> simp

/-- Different numbers are written differently. -/
theorem ofNat_inj {m n : Nat} (h : ofNat m = ofNat n) : m = n := by
  induction m using Nat.strongRecOn generalizing n with
  | ind m ih =>
    rw [ofNat, ofNat.eq_def n] at h
    split at h
    · split at h
      · have := decDigit_inj (List.singleton_inj.1 h)
        omega
      · have := List.append_eq_singleton_iff.1 h.symm
        simp [ofNat_ne_nil] at this
    · split at h
      · have := List.append_eq_singleton_iff.1 h
        simp [ofNat_ne_nil] at this
      · obtain ⟨hq, hr⟩ := List.append_inj' h rfl
        have hdigit := decDigit_inj (List.singleton_inj.1 hr)
        have := ih (m / 10) (by omega) hq
        omega

end Text

namespace Audit
open Text

theorem plain_stamp (now : Moment) : now.stamp.Plain := by
  have htwo : ∀ n, (Moment.two n).Plain := fun n => .ofNatPadded 2 n
  have hdate : (Moment.monthDay now.date).Plain :=
    .append (.append (.append (by decide) (htwo _)) (by decide)) (htwo _)
  have htime : (now.timeOfDay []).Plain :=
    .append (.append (.append (.append (htwo _) .nil) (htwo _)) .nil) (htwo _)
  exact .append (.append (.append (.append (.append (.ofNat _) hdate) (by decide)) htime) (by decide))
    (.ofNatPadded 6 _)

theorem plain_logName (now : Moment) (n : Nat) : (logName now n).Plain := by
  have hstamp : (filePrefix ++ now.stamp).Plain := .append (by decide) (plain_stamp now)
  cases n with
  | zero => exact hstamp.append (by decide)
  | succ n => exact ((hstamp.append (by decide)).append (.ofNat _)).append (by decide)

/-- The names for one instant are all different. -/
theorem logName_inj (now : Moment) {m n : Nat} (h : logName now m = logName now n) : m = n := by
  have longer : ∀ n, logName now 0 ≠ logName now (n + 1) := by
    intro n hn
    have := congrArg List.length hn
    simp [logName, ofString] at this
    omega
  cases m with
  | zero =>
    cases n with
    | zero => rfl
    | succ n => exact absurd h (longer n)
  | succ m =>
    cases n with
    | zero => exact absurd h.symm (longer m)
    | succ n => exact ofNat_inj (List.append_cancel_left (List.append_cancel_right h))

theorem logName_ne_dots (now : Moment) (n : Nat) : logName now n ≠ ".." := by
  intro h
  have hlen := congrArg List.length h
  have hprefix : filePrefix.length = 6 := rfl
  cases n with
  | zero =>
    simp [logName, ofString, hprefix] at hlen
    omega
  | succ n =>
    simp [logName, ofString, hprefix] at hlen
    omega

def logPath (dir : Path) (now : Moment) (n : Nat) : Path := dir.child (logName now n)

theorem nameable_logPath {dir : Path} (h : dir.Nameable) (now : Moment) (n : Nat) :
    (logPath dir now n).Nameable :=
  h.child fun c hc => (plain_logName now n c hc).isNameable

variable {d : Disk} {dir : Path} {now : Moment}

/-- The names of an instant under which there is something are no more than the places of the disk. -/
theorem taken_le {n : Nat} (h : ∀ j < n, d.pathExists (logPath dir now j) = .ok true) :
    n ≤ d.nodes.length := by
  cases n with
  | zero => exact Nat.zero_le _
  | succ n =>
    have found : ∀ j < n + 1, ∃ here l node, d.locate dir = .ok here ∧ l = here ++ [logName now j] ∧
        d.node? l = some node := by
      intro j hj
      obtain ⟨l, node, hl, hn, -⟩ := Disk.check_true (h j hj)
      obtain ⟨here, -, hh, -, rfl⟩ := Disk.locate_child (logName_ne_dots now j) hl
      exact ⟨here, _, node, hh, rfl, hn⟩
    obtain ⟨here, -, -, hh, -, -⟩ := found 0 (Nat.succ_pos n)
    let places := (List.range (n + 1)).map fun j => here ++ [logName now j]
    have hnodup : places.Nodup := by
      refine List.nodup_range.map fun i j hij => ?_
      exact logName_inj now (List.singleton_inj.1 (List.append_cancel_left hij))
    have hsubset : places ⊆ d.nodes.map Prod.fst := by
      intro l hl
      obtain ⟨j, hj, rfl⟩ := List.mem_map.1 hl
      obtain ⟨here', l', node, hh', rfl, hn⟩ := found j (List.mem_range.1 hj)
      rw [hh] at hh'
      cases hh'
      exact List.mem_map_of_mem (Disk.mem_nodes_iff.2 hn)
    simpa [places] using (hnodup.subperm hsubset).length_le

/-- The search stops at the first name under which there is nothing, or where it cannot look. -/
theorem freePath_spec (d : Disk) (dir : Path) (now : Moment) (tries n : Nat) :
    ∃ k, n ≤ k ∧ (∀ j, n ≤ j → j < k → d.pathExists (logPath dir now j) = .ok true) ∧
      ((d.pathExists (logPath dir now k) = .ok false ∧ freePath d dir now tries n = .ok (logPath dir now k)) ∨
        (∃ e, d.pathExists (logPath dir now k) = .error e ∧ freePath d dir now tries n = .error e) ∨
        k = n + tries) := by
  induction tries generalizing n with
  | zero =>
    refine ⟨n, Nat.le_refl n, ?_, Or.inr (Or.inr rfl)⟩
    intro j hj hk
    omega
  | succ tries ih =>
    have heq : freePath d dir now (tries + 1) n = (d.pathExists (logPath dir now n) >>= fun b =>
        if b = true then freePath d dir now tries (n + 1) else pure (logPath dir now n)) := rfl
    have first : ∀ j, n ≤ j → j < n → d.pathExists (logPath dir now j) = .ok true := by
      intro j hj hk
      omega
    rw [heq]
    cases hp : d.pathExists (logPath dir now n) with
    | error e => exact ⟨n, Nat.le_refl n, first, Or.inr (Or.inl ⟨e, hp, rfl⟩)⟩
    | ok b =>
      cases b with
      | false => exact ⟨n, Nat.le_refl n, first, Or.inl ⟨hp, rfl⟩⟩
      | true =>
        obtain ⟨k, hk, hbefore, hends⟩ := ih (n + 1)
        refine ⟨k, by omega, ?_, ?_⟩
        · intro j hj hjk
          by_cases hjn : j = n
          · rw [hjn, hp]
          · exact hbefore j (by omega) hjk
        · exact hends.imp id (Or.imp id (by omega))

/-- The names of an instant up to one are taken, and that one is free. -/
structure FirstFree (d : Disk) (dir : Path) (now : Moment) (k : Nat) : Prop where
  taken : ∀ j < k, d.pathExists (logPath dir now j) = .ok true
  free : d.pathExists (logPath dir now k) = .ok false

/-- The path for the next file is the first for its instant under which there is nothing. The search fails only where
it cannot look. -/
theorem nextPath_spec (d : Disk) (dir : Path) (now : Moment) :
    (∃ k, nextPath d dir now = .ok (logPath dir now k) ∧ FirstFree d dir now k) ∨
    (∃ k e, nextPath d dir now = .error e ∧ d.pathExists (logPath dir now k) = .error e ∧
      ∀ j < k, d.pathExists (logPath dir now j) = .ok true) := by
  obtain ⟨k, -, hbefore, ⟨hfree, hok⟩ | ⟨e, he, herr⟩ | hlast⟩ := freePath_spec d dir now (d.nodes.length + 1) 0
  · exact Or.inl ⟨k, hok, fun j hj => hbefore j (Nat.zero_le j) hj, hfree⟩
  · exact Or.inr ⟨k, e, herr, he, fun j hj => hbefore j (Nat.zero_le j) hj⟩
  · have := taken_le fun j hj => hbefore j (Nat.zero_le j) hj
    omega

theorem nextPath_cases (d : Disk) (dir : Path) (now : Moment) :
    (∃ k, nextPath d dir now = .ok (logPath dir now k) ∧ FirstFree d dir now k) ∨
    (∃ e, nextPath d dir now = .error e ∧ e.isSystem = true ∧ dir.Nameable) := by
  rcases nextPath_spec d dir now with h | ⟨k, e, herr, he, -⟩
  · exact Or.inl h
  · obtain ⟨hsystem, hpath⟩ := Disk.check_error he
    exact Or.inr ⟨e, herr, hsystem, hpath.of_child⟩

end Audit

end Custody
