import Custody.Proofs.Audit.Lifecycle
import Custody.Proofs.Text.Order

/-! What a listing of the files of a trail shows: exactly the files of its directory that have a name of the trail, in
the order of their names. -/
namespace Custody

namespace Disk
variable {d : Disk}

theorem mem_names {l : Location} {n : Text} : n ∈ d.names l ↔ ∃ x, d.node? (l ++ [n]) = some x := by
  unfold names
  rw [List.mem_filterMap]
  constructor
  · rintro ⟨⟨k, x⟩, hk, hn⟩
    dsimp only at hn
    split at hn
    · next h =>
      rw [← h.2, List.dropLast_append_getLast? n hn]
      exact ⟨x, mem_nodes_iff.1 hk⟩
    · cases hn
  · rintro ⟨x, hx⟩
    refine ⟨(l ++ [n], x), mem_nodes_iff.2 hx, ?_⟩
    dsimp only
    rw [if_pos ⟨List.concat_ne_nil n l, List.dropLast_concat⟩, List.getLast?_concat]

theorem nodup_names (l : Location) : (d.names l).Nodup := by
  let named (k : Location) : Option Text := if k ≠ [] ∧ k.dropLast = l then k.getLast? else none
  have hnamed : ∀ {k : Location} {n : Text}, named k = some n → k = l ++ [n] := by
    intro k n h
    dsimp only [named] at h
    split at h
    · next hk => rw [← hk.2, List.dropLast_append_getLast? n h]
    · cases h
  have hnames : d.names l = (d.nodes.map Prod.fst).filterMap named := by
    rw [List.filterMap_map]
    rfl
  rw [hnames]
  refine d.nodup.filterMap ?_
  intro k k' n hk hk'
  rw [hnamed hk, hnamed hk']

/-- A path below which there is something is the path of a directory. -/
theorem isDirectory_of_child {p : Path} {n : Text} {x : Node} (hn : n ≠ "..") (h : d.stat (p.child n) = .ok x) :
    d.isDirectory p = .ok true := by
  obtain ⟨l, hl, -⟩ := stat_eq_ok.1 h
  obtain ⟨here, mode, hp, hm, -⟩ := locate_child hn hl
  unfold isDirectory check
  rw [stat_eq_ok.2 ⟨here, hp, hm⟩]
  rfl

theorem isFile_iff {p : Path} : d.isFile p = .ok true ↔ ∃ f, d.stat p = .ok (.file f) := by
  constructor
  · intro h
    obtain ⟨l, n, hl, hn, hf⟩ := check_true h
    cases n with
    | directory mode => cases hf
    | file f => exact ⟨f, stat_eq_ok.2 ⟨l, hl, hn⟩⟩
  · rintro ⟨f, h⟩
    unfold isFile check
    rw [h]
    rfl

end Disk

namespace Audit
open Act

variable {d : Disk} {dir : Path}

def IsLogFile (d : Disk) (dir : Path) (n : Text) (f : File) : Prop :=
  isLogName n = true ∧ d.stat (dir.child n) = .ok (.file f)

/-- Names are a listing: they are in order, and they are the names of the files of the trail. -/
structure Lists (d : Disk) (dir : Path) (names : List Text) : Prop where
  ordered : names.Pairwise fun s t => s.le t = true
  nodup : names.Nodup
  mem : ∀ n, n ∈ names ↔ ∃ f, IsLogFile d dir n f

theorem name_child (p : Path) (n : Text) : (p.child n).name = n := List.getLastD_concat

theorem child_injective (p : Path) : Function.Injective p.child := fun m n h => by
  rw [← name_child p m, h, name_child]

theorem ne_dots_of_isLogName {n : Text} (h : isLogName n = true) : n ≠ ".." := by
  rintro rfl
  exact absurd h (by decide)

/-- The names that are kept among some. -/
theorem onlyFiles_spec {names : List Text} {ps : List Path} (h : onlyFiles d (names.map dir.child) = .ok ps) :
    ∃ kept : List Text, ps = kept.map dir.child ∧ kept.Sublist names ∧
      ∀ n, n ∈ kept ↔ n ∈ names ∧ d.isFile (dir.child n) = .ok true := by
  induction names generalizing ps with
  | nil =>
    cases h
    exact ⟨[], rfl, .slnil, fun n => by simp⟩
  | cons m rest ih =>
    rw [List.map_cons, onlyFiles] at h
    obtain ⟨b, hb, h⟩ := Failure.bind_eq_ok.1 h
    cases b with
    | false =>
      obtain ⟨kept, hps, hsub, hmem⟩ := ih h
      refine ⟨kept, hps, hsub.cons m, fun n => ?_⟩
      rw [hmem, List.mem_cons]
      refine ⟨fun h => ⟨Or.inr h.1, h.2⟩, fun h => ⟨h.1.resolve_left ?_, h.2⟩⟩
      rintro rfl
      have hf := h.2
      rw [hb] at hf
      cases hf
    | true =>
      obtain ⟨others, ho, h⟩ := Failure.bind_eq_ok.1 h
      cases h
      obtain ⟨kept, rfl, hsub, hmem⟩ := ih ho
      refine ⟨m :: kept, rfl, hsub.cons_cons m, fun n => ?_⟩
      rw [List.mem_cons, List.mem_cons, hmem]
      refine ⟨?_, fun h => h.1.imp_right fun hn => ⟨hn, h.2⟩⟩
      rintro (rfl | ⟨hn, hf⟩)
      · exact ⟨Or.inl rfl, hb⟩
      · exact ⟨Or.inr hn, hf⟩

theorem list_spec {ps : List Path} (h : list d dir = .ok ps) :
    ∃ names, ps = names.map dir.child ∧ Lists d dir names := by
  unfold list at h
  obtain ⟨b, hb, h⟩ := Failure.bind_eq_ok.1 h
  cases b with
  | false =>
    cases h
    refine ⟨[], rfl, .nil, .nil, fun n => iff_of_false List.not_mem_nil ?_⟩
    rintro ⟨f, hn, hf⟩
    rw [Disk.isDirectory_of_child (ne_dots_of_isLogName hn) hf] at hb
    cases hb
  | true =>
    obtain ⟨l, hl, h⟩ := Failure.bind_eq_ok.1 h
    obtain ⟨kept, rfl, hsub, hmem⟩ := onlyFiles_spec h
    have hperm := List.mergeSort_perm ((d.names l).filter isLogName) Text.le
    refine ⟨kept, rfl, (Text.pairwise_mergeSort _).sublist hsub,
      (hperm.nodup_iff.2 ((Disk.nodup_names l).filter _)).sublist hsub, fun n => ?_⟩
    rw [hmem, hperm.mem_iff, List.mem_filter, Disk.mem_names, Disk.isFile_iff]
    constructor
    · rintro ⟨⟨-, hn⟩, f, hf⟩
      exact ⟨f, hn, hf⟩
    · rintro ⟨f, hn, hf⟩
      obtain ⟨k, hk, hx⟩ := Disk.stat_eq_ok.1 hf
      obtain ⟨here, -, hh, -, rfl⟩ := Disk.locate_child (ne_dots_of_isLogName hn) hk
      rw [hl] at hh
      cases hh
      exact ⟨⟨⟨_, hx⟩, hn⟩, f, hf⟩

private theorem onlyFiles_ok {ps : List Path} (h : ∀ p ∈ ps, ∃ b, d.isFile p = .ok b) :
    ∃ kept, onlyFiles d ps = .ok kept := by
  induction ps with
  | nil => exact ⟨[], rfl⟩
  | cons p rest ih =>
    obtain ⟨kept, hkept⟩ := ih fun q hq => h q (List.mem_cons_of_mem p hq)
    obtain ⟨b, hb⟩ := h p List.mem_cons_self
    rw [onlyFiles, hb, hkept]
    cases b with
    | false => exact ⟨kept, rfl⟩
    | true => exact ⟨p :: kept, rfl⟩

/-- The files of a directory can be listed if what has a name of the trail there can be looked at, and there is
something. -/
theorem list_ok {n : Text} {f : File} (hf : IsLogFile d dir n f)
    (h : ∀ l n, d.locate dir = .ok l → isLogName n = true → n ∈ d.names l → ∃ b, d.isFile (dir.child n) = .ok b) :
    ∃ ps, list d dir = .ok ps := by
  obtain ⟨l, hl, -⟩ := Disk.stat_eq_ok.1 hf.2
  obtain ⟨here, -, hdir, -, -⟩ := Disk.locate_child (ne_dots_of_isLogName hf.1) hl
  obtain ⟨kept, hkept⟩ : ∃ kept, onlyFiles d ((((d.names here).filter isLogName).mergeSort Text.le).map dir.child) =
      .ok kept := by
    refine onlyFiles_ok fun p hp => ?_
    obtain ⟨m, hm, rfl⟩ := List.mem_map.1 hp
    obtain ⟨hm, hname⟩ := List.mem_filter.1 ((List.mergeSort_perm _ _).mem_iff.1 hm)
    exact h here m hdir hname hm
  refine ⟨kept, ?_⟩
  rw [list, Disk.isDirectory_of_child (ne_dots_of_isLogName hf.1) hf.2, ← hkept, hdir]
  rfl

/-- There is one listing. -/
theorem Lists.eq {names names' : List Text} (h : Lists d dir names) (h' : Lists d dir names') : names = names' :=
  Text.eq_of_perm h.ordered h'.ordered
    ((List.perm_ext_iff_of_nodup h.nodup h'.nodup).2 fun n => (h.mem n).trans (h'.mem n).symm)

theorem logFiles_of_ok {w : World} {ps : List Path} (h : list w.site.disk w.trail.config.dir = .ok ps) :
    logFiles w = .ok ps w := by
  unfold logFiles
  rw [get_bind, h]
  exact orElse_of_ok (require_ok ps w)

theorem logFiles_of_error {w : World} {e : Failure} (h : list w.site.disk w.trail.config.dir = .error e) :
    ∃ w', logFiles w = .ok [] w' ∧ w.Tidied w.site.disk w' := by
  unfold logFiles
  rw [get_bind, h, orElse_of_sort (require_error e w) (list_error h)]
  obtain ⟨w', h', hw'⟩ := (World.Tidied.refl w).report .warning .audit "audit_dir_unreadable"
    [Value.field "dir" (.text w.trail.config.dir.text)]
  exact ⟨w', bind_of_ok h', hw'⟩

end Audit

end Custody
