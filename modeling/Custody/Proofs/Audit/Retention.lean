import Custody.Proofs.Audit.FileTimes
import Custody.Proofs.Audit.Listing
import Custody.Proofs.Audit.Runs

/-! What a cleanup removes: the files that are older than the retention time, wherever their times can be told apart. -/
namespace Custody.Audit
open Act

section Shedding
variable {d d' d'' : Disk} {dir : Path} {gone later : List Text} {n : Text}

/-- One disk is another without some files of the trail. -/
structure Sheds (d : Disk) (dir : Path) (gone : List Text) (d' : Disk) : Prop where
  cwd : d'.cwd = d.cwd
  file : ∀ n ∈ gone, ∃ f, IsLogFile d dir n f
  free : ∀ n ∈ gone, ∀ l, d.locate (dir.child n) = .ok l → d'.node? l = none
  kept : ∀ l, (∀ n ∈ gone, d.locate (dir.child n) ≠ .ok l) → d'.node? l = d.node? l

namespace Sheds

theorem refl (d : Disk) (dir : Path) : Sheds d dir [] d :=
  ⟨rfl, fun _ h => absurd h List.not_mem_nil, fun _ h => absurd h List.not_mem_nil, fun _ _ => rfl⟩

theorem single {f : File} {l : Location} (hf : IsLogFile d dir n f) (hl : d.locate (dir.child n) = .ok l) :
    Sheds d dir [n] (d.keep fun k => k ≠ l) := by
  refine ⟨rfl, fun m hm => ⟨f, by rwa [List.mem_singleton.1 hm]⟩, fun m hm k hk => ?_, fun k hk => ?_⟩
  · rw [List.mem_singleton.1 hm, hl] at hk
    cases hk
    rw [Disk.node?_keep, if_neg (by simp)]
  · have hne : k ≠ l := by
      rintro rfl
      exact hk n (List.mem_singleton.2 rfl) hl
    rw [Disk.node?_keep, if_pos (by simpa using hne)]

/-- What is still there was there before. -/
theorem node?_of_some (h : Sheds d dir gone d') {l : Location} {x : Node} (hx : d'.node? l = some x) :
    d.node? l = some x := by
  by_cases hl : ∃ n ∈ gone, d.locate (dir.child n) = .ok l
  · obtain ⟨n, hn, hl⟩ := hl
    rw [h.free n hn l hl] at hx
    cases hx
  · rw [← h.kept l fun n hn hc => hl ⟨n, hn, hc⟩, hx]

private theorem hasDirectories (h : Sheds d dir gone d') : d.HasDirectories d' := by
  refine ⟨h.cwd, fun l mode hl => ⟨mode, ?_⟩⟩
  rw [h.kept l fun n hn hc => ?_, hl]
  obtain ⟨f, -, hf⟩ := h.file n hn
  obtain ⟨k, hk, hf⟩ := Disk.stat_eq_ok.1 hf
  rw [hc] at hk
  cases hk
  rw [hl] at hf
  cases hf

theorem locate_iff (h : Sheds d dir gone d') {p : Path} {l : Location} : d'.locate p = .ok l ↔ d.locate p = .ok l := by
  have hback : d'.HasDirectories d := ⟨h.cwd.symm, fun k mode hk => ⟨mode, h.node?_of_some hk⟩⟩
  exact ⟨hback.locate, h.hasDirectories.locate⟩

/-- The files that are left are the same files. -/
theorem isLogFile_iff (h : Sheds d dir gone d') {f : File} :
    IsLogFile d' dir n f ↔ IsLogFile d dir n f ∧ n ∉ gone := by
  constructor
  · rintro ⟨hn, hf⟩
    obtain ⟨l, hl, hf⟩ := Disk.stat_eq_ok.1 hf
    rw [h.locate_iff] at hl
    refine ⟨⟨hn, Disk.stat_eq_ok.2 ⟨l, hl, h.node?_of_some hf⟩⟩, fun hg => ?_⟩
    rw [h.free n hg l hl] at hf
    cases hf
  · rintro ⟨⟨hn, hf⟩, hg⟩
    obtain ⟨l, hl, hf⟩ := Disk.stat_eq_ok.1 hf
    refine ⟨hn, Disk.stat_eq_ok.2 ⟨l, h.locate_iff.2 hl, ?_⟩⟩
    rw [h.kept l fun m hm hc => hg ?_, hf]
    obtain ⟨g, hm', -⟩ := h.file m hm
    have hplace := Disk.eq_place_child (ne_dots_of_isLogName hn) hl
    rw [Disk.eq_place_child (ne_dots_of_isLogName hm') hc] at hplace
    rwa [List.singleton_inj.1 (List.append_cancel_left hplace)] at hm

theorem trans (h : Sheds d dir gone d') (h' : Sheds d' dir later d'') : Sheds d dir (gone ++ later) d'' := by
  refine ⟨h'.cwd.trans h.cwd, fun n hn => ?_, fun n hn l hl => ?_, fun l hl => ?_⟩
  · rcases List.mem_append.1 hn with hn | hn
    · exact h.file n hn
    · obtain ⟨f, hf⟩ := h'.file n hn
      exact ⟨f, (h.isLogFile_iff.1 hf).1⟩
  · rcases List.mem_append.1 hn with hn | hn
    · cases hx : d''.node? l with
      | none => rfl
      | some x =>
        have := h'.node?_of_some hx
        rw [h.free n hn l hl] at this
        cases this
    · exact h'.free n hn l (h.locate_iff.2 hl)
  · rw [h'.kept l fun n hn hc => hl n (List.mem_append_right _ hn) (h.locate_iff.1 hc),
      h.kept l fun n hn => hl n (List.mem_append_left _ hn)]

end Sheds

end Shedding

section Sweeping
variable {w : World} {cutoff : Moment} {n : Text} {f : File}

def NotCurrent (w : World) (n : Text) : Prop :=
  ∀ c, w.trail.current = some c → c.path ≠ w.trail.config.dir.child n

def Refused (w : World) (n : Text) : Prop := ∃ e, w.site.refusals.removals.lookup n = some e

/-- A file that a cleanup takes away: to it the file looks old, and nothing protects it. -/
def Goes (w : World) (cutoff : Moment) (n : Text) : Prop :=
  ∃ f, IsLogFile w.site.disk w.trail.config.dir n f ∧ NotCurrent w n ∧
    fileSeconds f.modified < seconds cutoff ∧ ¬Refused w n

theorem removeIfOld_of_young {p : Path} (hs : w.site.disk.stat p = .ok (.file f))
    (h : seconds cutoff ≤ fileSeconds f.modified) : removeIfOld cutoff p w = .ok false w := by
  unfold removeIfOld
  rw [get_bind, hs, bind_of_ok (require_ok _ _)]
  dsimp only
  rw [if_pos h]
  rfl

theorem removeIfOld_of_old {p : Path} (hs : w.site.disk.stat p = .ok (.file f))
    (h : fileSeconds f.modified < seconds cutoff) :
    removeIfOld cutoff p w = (removeFile p >>= fun _ => pure true) w := by
  unfold removeIfOld
  rw [get_bind, hs, bind_of_ok (require_ok _ _)]
  dsimp only
  rw [if_neg (not_le.2 h)]

theorem removeFile_of_refused {p : Path} {e : SystemError} (h : w.site.refusals.removals.lookup p.name = some e) :
    removeFile p w = .error (.system e) w := by
  unfold removeFile
  rw [get_bind, h]
  rfl

theorem removeFile_of_file {p : Path} {l : Location} (hr : w.site.refusals.removals.lookup p.name = none)
    (hl : w.site.disk.locate p = .ok l) (hf : w.site.disk.node? l = some (.file f)) :
    removeFile p w = .ok () { w with site := { w.site with disk := w.site.disk.keep fun k => k ≠ l } } := by
  unfold removeFile
  rw [get_bind, hr]
  refine onDisk_ok ?_
  unfold Disk.remove
  rw [Disk.query_bind_ok (q := (Disk.locate · p)) hl, get_bind, hf]
  rfl

/-- The attempt to remove one file if it is old. The result tells whether it is gone. -/
def attempt (cutoff : Moment) (p : Path) : Act Bool :=
  orElse (removeIfOld cutoff p) Failure.isSystem fun e => do
    if e ≠ .system .notFound then
      report .warning .audit "audit_log_delete_failed" [Value.field "file" (.text p.name)]
    return false

theorem sweep_of_current {p : Path} {rest : List Path} (h : w.trail.current.any (·.path = p) = true) :
    sweep cutoff (p :: rest) w = sweep cutoff rest w := by
  rw [sweep, get_bind, if_pos h]

theorem sweep_of_kept {w₁ : World} {p : Path} {rest : List Path} (h : ¬w.trail.current.any (·.path = p) = true)
    (ha : attempt cutoff p w = .ok false w₁) : sweep cutoff (p :: rest) w = sweep cutoff rest w₁ := by
  rw [sweep, get_bind, if_neg h]
  exact bind_of_ok ha

theorem sweep_of_removed {w₁ w₂ : World} {p : Path} {rest : List Path}
    (h : ¬w.trail.current.any (·.path = p) = true) (ha : attempt cutoff p w = .ok true w₁)
    (hr : report .info .audit "audit_log_deleted" [Value.field "file" (.text p.name)] w₁ = .ok () w₂) :
    sweep cutoff (p :: rest) w = (sweep cutoff rest >>= fun gone => pure (p :: gone)) w₂ := by
  rw [sweep, get_bind, if_neg h]
  exact (bind_of_ok ha).trans (bind_of_ok hr)

theorem attempt_of_young {p : Path} (hs : w.site.disk.stat p = .ok (.file f))
    (h : seconds cutoff ≤ fileSeconds f.modified) : attempt cutoff p w = .ok false w :=
  orElse_of_ok (removeIfOld_of_young hs h)

theorem attempt_of_refused {p : Path} {e : SystemError} (hs : w.site.disk.stat p = .ok (.file f))
    (h : fileSeconds f.modified < seconds cutoff) (hr : w.site.refusals.removals.lookup p.name = some e) :
    ∃ w₁, w.Tidied w.site.disk w₁ ∧ attempt cutoff p w = .ok false w₁ := by
  have hrefused : removeIfOld cutoff p w = .error (.system e) w := by
    rw [removeIfOld_of_old hs h]
    exact bind_of_error (removeFile_of_refused hr)
  unfold attempt
  rw [orElse_of_sort hrefused (Failure.isSystem_system e)]
  split
  · obtain ⟨w₁, h₁, hw₁⟩ := (World.Tidied.refl w).report .warning .audit "audit_log_delete_failed"
      [Value.field "file" (.text p.name)]
    exact ⟨w₁, hw₁, bind_of_ok h₁⟩
  · exact ⟨w, .refl w, rfl⟩

private theorem attempt_of_old {p : Path} {l : Location} (hl : w.site.disk.locate p = .ok l)
    (hf : w.site.disk.node? l = some (.file f)) (h : fileSeconds f.modified < seconds cutoff)
    (hr : w.site.refusals.removals.lookup p.name = none) :
    attempt cutoff p w = .ok true { w with site := { w.site with disk := w.site.disk.keep fun k => k ≠ l } } := by
  refine orElse_of_ok ?_
  rw [removeIfOld_of_old (Disk.stat_eq_ok.2 ⟨l, hl, hf⟩) h]
  exact bind_of_ok (removeFile_of_file hr hl hf)

private theorem current_any_iff :
    w.trail.current.any (·.path = w.trail.config.dir.child n) = true ↔ ¬NotCurrent w n := by
  unfold NotCurrent
  cases w.trail.current with
  | none => simp
  | some c => simp

/-- What a sweep does to one file: it is taken away, or it stays. -/
theorem sweep_step (cutoff : Moment) (hf : IsLogFile w.site.disk w.trail.config.dir n f) (rest : List Path) :
    (∃ l w₁, Goes w cutoff n ∧ w.site.disk.locate (w.trail.config.dir.child n) = .ok l ∧
      w.Tidied (w.site.disk.keep fun k => k ≠ l) w₁ ∧
      sweep cutoff (w.trail.config.dir.child n :: rest) w =
        (sweep cutoff rest >>= fun gone => pure (w.trail.config.dir.child n :: gone)) w₁) ∨
    (∃ w₁, ¬Goes w cutoff n ∧ w.Tidied w.site.disk w₁ ∧
      sweep cutoff (w.trail.config.dir.child n :: rest) w = sweep cutoff rest w₁) := by
  by_cases hcurrent : NotCurrent w n
  · have hany := current_any_iff.not.2 (not_not.2 hcurrent)
    rcases le_or_gt (seconds cutoff) (fileSeconds f.modified) with hyoung | hold
    · refine Or.inr ⟨w, ?_, .refl w, sweep_of_kept hany (attempt_of_young hf.2 hyoung)⟩
      rintro ⟨g, hg, -, hold, -⟩
      cases hg.2.symm.trans hf.2
      exact absurd hold (not_lt.2 hyoung)
    · cases hr : w.site.refusals.removals.lookup n with
      | some e =>
        obtain ⟨w₁, hw₁, h₁⟩ := attempt_of_refused hf.2 hold (by rwa [name_child])
        refine Or.inr ⟨w₁, ?_, hw₁, sweep_of_kept hany h₁⟩
        rintro ⟨g, -, -, -, hnone⟩
        exact hnone ⟨e, hr⟩
      | none =>
        obtain ⟨l, hl, hn⟩ := Disk.stat_eq_ok.1 hf.2
        have htidied : w.Tidied (w.site.disk.keep fun k => k ≠ l)
            { w with site := { w.site with disk := w.site.disk.keep fun k => k ≠ l } } := ⟨_, rfl⟩
        obtain ⟨w₁, h₁, hw₁⟩ := htidied.report .info .audit "audit_log_deleted"
          [Value.field "file" (.text (w.trail.config.dir.child n).name)]
        refine Or.inl ⟨l, w₁, ⟨f, hf, hcurrent, hold, ?_⟩, hl, hw₁,
          sweep_of_removed hany (attempt_of_old hl hn hold (by rwa [name_child])) h₁⟩
        rintro ⟨e, he⟩
        rw [hr] at he
        cases he
  · refine Or.inr ⟨w, ?_, .refl w, sweep_of_current (current_any_iff.2 hcurrent)⟩
    rintro ⟨g, -, hnot, -⟩
    exact hcurrent hnot

/-- To the files that are left a sweep looks the same after one of them is gone. -/
theorem goes_iff {w₁ : World} {d : Disk} {gone : List Text} (hw : w.Tidied d w₁)
    (hd : Sheds w.site.disk w.trail.config.dir gone d) : Goes w₁ cutoff n ↔ Goes w cutoff n ∧ n ∉ gone := by
  unfold Goes NotCurrent Refused
  rw [hw.disk, hw.trail, hw.refusals]
  constructor
  · rintro ⟨f, hf, h⟩
    obtain ⟨hf, hn⟩ := hd.isLogFile_iff.1 hf
    exact ⟨⟨f, hf, h⟩, hn⟩
  · rintro ⟨⟨f, hf, h⟩, hn⟩
    exact ⟨f, hd.isLogFile_iff.2 ⟨hf, hn⟩, h⟩

/-- A sweep takes away the files that have to go, and says which. -/
theorem sweep_exact (cutoff : Moment) {names : List Text} (hnodup : names.Nodup)
    (hfiles : ∀ n ∈ names, ∃ f, IsLogFile w.site.disk w.trail.config.dir n f) :
    ∃ gone d w', sweep cutoff (names.map w.trail.config.dir.child) w = .ok (gone.map w.trail.config.dir.child) w' ∧
      gone.Sublist names ∧ (∀ n, n ∈ gone ↔ n ∈ names ∧ Goes w cutoff n) ∧ w.Tidied d w' ∧
      Sheds w.site.disk w.trail.config.dir gone d := by
  induction names generalizing w with
  | nil => exact ⟨[], _, w, rfl, .slnil, by simp, .refl w, .refl _ _⟩
  | cons n rest ih =>
    obtain ⟨hn, hrest⟩ := List.nodup_cons.1 hnodup
    obtain ⟨f, hf⟩ := hfiles n List.mem_cons_self
    have later : ∀ {w₁ : World} {d : Disk} {first : List Text}, w.Tidied d w₁ →
        Sheds w.site.disk w.trail.config.dir first d → (∀ m ∈ first, m = n) →
        ∃ gone d' w', sweep cutoff (rest.map w.trail.config.dir.child) w₁ =
            .ok (gone.map w.trail.config.dir.child) w' ∧ gone.Sublist rest ∧
          (∀ m, m ∈ gone ↔ m ∈ rest ∧ Goes w cutoff m) ∧ w.Tidied d' w' ∧
          Sheds w.site.disk w.trail.config.dir (first ++ gone) d' := by
      intro w₁ d first hw₁ hd hfirst
      have hother : ∀ m ∈ rest, m ∉ first := fun m hm hc => hn (hfirst m hc ▸ hm)
      obtain ⟨gone, d', w', hrun, hsub, hmem, hw', hd'⟩ := @ih w₁ hrest (by
        intro m hm
        obtain ⟨g, hg⟩ := hfiles m (List.mem_cons_of_mem n hm)
        rw [hw₁.disk, hw₁.trail]
        exact ⟨g, hd.isLogFile_iff.2 ⟨hg, hother m hm⟩⟩)
      rw [hw₁.trail] at hrun
      rw [hw₁.disk, hw₁.trail] at hd'
      refine ⟨gone, d', w', hrun, hsub, fun m => ?_, hw₁.trans hw', hd.trans hd'⟩
      rw [hmem, goes_iff hw₁ hd]
      exact ⟨fun h => ⟨h.1, h.2.1⟩, fun h => ⟨h.1, h.2, hother m h.1⟩⟩
    rw [List.map_cons]
    rcases sweep_step cutoff hf (rest.map w.trail.config.dir.child) with
      ⟨l, w₁, hgoes, hl, hw₁, hrun⟩ | ⟨w₁, hstays, hw₁, hrun⟩
    · obtain ⟨gone, d', w', hrun', hsub, hmem, hw', hd'⟩ :=
        later hw₁ (.single hf hl) fun m hm => List.mem_singleton.1 hm
      refine ⟨n :: gone, d', w', hrun.trans (bind_of_ok hrun'), hsub.cons_cons n, fun m => ?_, hw', hd'⟩
      rw [List.mem_cons, List.mem_cons, hmem]
      constructor
      · rintro (rfl | ⟨hm, hg⟩)
        · exact ⟨Or.inl rfl, hgoes⟩
        · exact ⟨Or.inr hm, hg⟩
      · rintro ⟨hm, hg⟩
        exact hm.imp_right fun hm => ⟨hm, hg⟩
    · obtain ⟨gone, d', w', hrun', hsub, hmem, hw', hd'⟩ := later hw₁ (.refl _ _) fun m hm => absurd hm List.not_mem_nil
      refine ⟨gone, d', w', hrun.trans hrun', hsub.cons n, fun m => ?_, hw', hd'⟩
      rw [List.mem_cons, hmem]
      refine ⟨fun h => ⟨Or.inr h.1, h.2⟩, fun h => ⟨h.1.resolve_left ?_, h.2⟩⟩
      rintro rfl
      exact hstays h.2

/-- What a cleanup takes away. A directory that cannot be listed is left alone. -/
theorem cleanupFrom_exact {now : Moment} (hc : cutoff? now w.trail.config.retentionDays = .ok cutoff) :
    (∃ ps gone d w', list w.site.disk w.trail.config.dir = .ok ps ∧
      cleanupFrom now w = .ok (gone.map w.trail.config.dir.child) w' ∧
      gone.Pairwise (fun s t => s.le t = true) ∧ gone.Nodup ∧ (∀ n, n ∈ gone ↔ Goes w cutoff n) ∧
      w.Tidied d w' ∧ Sheds w.site.disk w.trail.config.dir gone d) ∨
    (∃ e w', list w.site.disk w.trail.config.dir = .error e ∧ cleanupFrom now w = .ok [] w' ∧
      w.Tidied w.site.disk w') := by
  have hrun : cleanupFrom now w = (logFiles >>= sweep cutoff) w := by
    unfold cleanupFrom
    rw [get_bind, hc, bind_of_ok (require_ok _ _)]
  rw [hrun]
  cases hl : list w.site.disk w.trail.config.dir with
  | ok ps =>
    obtain ⟨names, rfl, hlists⟩ := list_spec hl
    obtain ⟨gone, d, w', hsweep, hsub, hmem, hw', hd⟩ :=
      sweep_exact cutoff hlists.nodup fun n hn => (hlists.mem n).1 hn
    refine Or.inl ⟨_, gone, d, w', rfl, ?_, hlists.ordered.sublist hsub, hlists.nodup.sublist hsub, fun n => ?_,
      hw', hd⟩
    · rw [bind_of_ok (logFiles_of_ok hl), hsweep]
    · rw [hmem, hlists.mem]
      refine ⟨And.right, fun h => ⟨?_, h⟩⟩
      obtain ⟨f, hf, -⟩ := h
      exact ⟨f, hf⟩
  | error e =>
    obtain ⟨w', h, hw'⟩ := logFiles_of_error hl
    exact Or.inr ⟨e, w', rfl, bind_of_ok h, hw'⟩

end Sweeping

section Retention
variable {w : World} {now : Timestamp} {cutoff : Moment}

/-- A file of the trail that is older than an instant, and is not being written. -/
def Expired (w : World) (cutoff : Moment) (n : Text) : Prop :=
  ∃ f, IsLogFile w.site.disk w.trail.config.dir n f ∧ NotCurrent w n ∧ f.modified < cutoff.sinceEpoch

/-- A cleanup removes exactly the files that are older than an instant. It gives their paths in the order of their
names, leaves everything else as it is, and leaves nothing for a second cleanup. -/
def Retains (now : Timestamp) (cutoff : Moment) (w : World) : Prop :=
  ∃ gone w', cleanup (some now) w = .ok (gone.map w.trail.config.dir.child) w' ∧
    gone.Pairwise (fun s t => s.le t = true) ∧ gone.Nodup ∧ (∀ n, n ∈ gone ↔ Expired w cutoff n) ∧
    w'.trail = w.trail ∧ Sheds w.site.disk w.trail.config.dir gone w'.site.disk ∧
    (cleanup (some now)).result w' = .ok []

/-- Every file that is not being written is judged by its time to the microsecond, and goes if it is old; where the
directory cannot be listed no file is old. -/
def Fair (w : World) (cutoff : Moment) : Prop :=
  (∃ ps, list w.site.disk w.trail.config.dir = .ok ps ∧
    ∀ n f, IsLogFile w.site.disk w.trail.config.dir n f → NotCurrent w n →
      (fileSeconds f.modified < seconds cutoff ∧ ¬Refused w n ↔ f.modified < cutoff.sinceEpoch)) ∨
  (∃ e, list w.site.disk w.trail.config.dir = .error e ∧ ∀ n, ¬Expired w cutoff n)

theorem micros_of_toUtc {m : Moment} (h : now.toUtc = .ok m) : (m.micros : ℤ) = now.instant :=
  Timestamp.toUtc_eq_ok.1 h

/-- The instant that a cleanup counts back to. -/
theorem cutoff?_eq {m : Moment} {days : Int} (h : (cutoff.micros : ℤ) = m.micros - days * microsPerDay) :
    cutoff? m days = .ok cutoff := by
  have hday : (microsPerDay : ℤ) = 86400000000 := rfl
  have hm := m.micros_lt
  have hdays : ¬maxDays < days := by
    have hcount : Date.dayCount * microsPerDay = 315537897600000000 := rfl
    rw [hday] at h
    unfold maxDays
    omega
  unfold cutoff?
  rw [if_neg hdays, ← h, Moment.ofMicros?_eq_some.2 rfl]

theorem cleanup_some (now : Timestamp) (w : World) :
    cleanup (some now) w = (require now.toUtc >>= cleanupFrom) w := rfl

theorem cleanup_of_toUtc {m : Moment} (h : now.toUtc = .ok m) (w : World) :
    cleanup (some now) w = cleanupFrom m w := by
  rw [cleanup_some, h]
  exact bind_of_ok (require_ok m w)

theorem IsLogFile.eq {d : Disk} {dir : Path} {n : Text} {f g : File} (hf : IsLogFile d dir n f)
    (hg : IsLogFile d dir n g) : f = g := by
  cases hf.2.symm.trans hg.2
  rfl

/-- What a cleanup takes away is what is old, if it judges every file rightly. -/
theorem goes_iff_expired : (∀ n, Goes w cutoff n ↔ Expired w cutoff n) ↔
    ∀ n f, IsLogFile w.site.disk w.trail.config.dir n f → NotCurrent w n →
      (fileSeconds f.modified < seconds cutoff ∧ ¬Refused w n ↔ f.modified < cutoff.sinceEpoch) := by
  constructor
  · intro h n f hf hn
    constructor
    · intro hgoes
      obtain ⟨g, hg, -, hold⟩ := (h n).1 ⟨f, hf, hn, hgoes⟩
      rwa [hf.eq hg]
    · intro hold
      obtain ⟨g, hg, -, hgoes⟩ := (h n).2 ⟨f, hf, hn, hold⟩
      rwa [hf.eq hg]
  · intro h n
    exact exists_congr fun f => and_congr_right fun hf => and_congr_right fun hn => h n f hf hn

/-- A second cleanup finds nothing that has to go. -/
theorem cleanup_again {m : Moment} {w' : World} {gone : List Text} {d : Disk} (hm : now.toUtc = .ok m)
    (hc : cutoff? m w.trail.config.retentionDays = .ok cutoff) (hgone : ∀ n, Goes w cutoff n → n ∈ gone)
    (hw : w.Tidied d w') (hd : Sheds w.site.disk w.trail.config.dir gone d) :
    (cleanup (some now)).result w' = .ok [] := by
  rw [← hw.trail] at hc
  rcases cleanupFrom_exact hc with ⟨ps, later, d', v, -, h, -, -, hlater, -, -⟩ | ⟨e, v, -, h, -⟩
  · have hnone : later = [] := by
      refine List.eq_nil_iff_forall_not_mem.2 fun n hn => ?_
      obtain ⟨hgoes, hkept⟩ := (goes_iff hw hd).1 ((hlater n).1 hn)
      exact hkept (hgone n hgoes)
    rw [hnone] at h
    exact result_of_ok ((cleanup_of_toUtc hm w').trans h)
  · exact result_of_ok ((cleanup_of_toUtc hm w').trans h)

theorem not_retains_of_toUtc {e : Failure} (hm : now.toUtc = .error e) : ¬Retains now cutoff w := by
  rintro ⟨gone, w', hrun, -⟩
  rw [cleanup_some, hm, bind_of_error (require_error e w)] at hrun
  cases hrun

/-- When the directory can be listed, all depends on how the files are judged. -/
theorem retains_iff_of_gone {m : Moment} {gone : List Text} {d : Disk} {w' : World} (hm : now.toUtc = .ok m)
    (hc : cutoff? m w.trail.config.retentionDays = .ok cutoff)
    (hrun : cleanupFrom m w = .ok (gone.map w.trail.config.dir.child) w')
    (hsorted : gone.Pairwise fun s t => s.le t = true) (hnodup : gone.Nodup)
    (hgone : ∀ n, n ∈ gone ↔ Goes w cutoff n) (hw : w.Tidied d w')
    (hd : Sheds w.site.disk w.trail.config.dir gone d) :
    Retains now cutoff w ↔ ∀ n, Goes w cutoff n ↔ Expired w cutoff n := by
  have hclean := (cleanup_of_toUtc hm w).trans hrun
  constructor
  · rintro ⟨gone', w'', hclean', -, -, hexpired, -⟩ n
    rw [hclean] at hclean'
    injection hclean' with hpaths
    obtain rfl := List.map_injective_iff.2 (child_injective _) hpaths
    rw [← hgone, hexpired]
  · intro h
    refine ⟨gone, w', hclean, hsorted, hnodup, fun n => (hgone n).trans (h n), hw.trail, ?_,
      cleanup_again hm hc (fun n => (hgone n).2) hw hd⟩
    rw [hw.disk]
    exact hd

/-- When it cannot be listed nothing is taken away, which is right if nothing is old. -/
theorem retains_iff_of_unlisted {m : Moment} {e : Failure} {w' : World} (hm : now.toUtc = .ok m)
    (hc : cutoff? m w.trail.config.retentionDays = .ok cutoff) (hl : list w.site.disk w.trail.config.dir = .error e)
    (hrun : cleanupFrom m w = .ok [] w') (hw : w.Tidied w.site.disk w') :
    Retains now cutoff w ↔ ∀ n, ¬Expired w cutoff n := by
  have hclean := (cleanup_of_toUtc hm w).trans hrun
  constructor
  · rintro ⟨gone, w'', hclean', -, -, hexpired, -⟩ n hn
    rw [hclean] at hclean'
    injection hclean' with hpaths
    obtain rfl := List.map_eq_nil_iff.1 hpaths.symm
    exact absurd ((hexpired n).2 hn) List.not_mem_nil
  · intro h
    refine ⟨[], w', hclean, .nil, .nil, fun n => iff_of_false List.not_mem_nil (h n), hw.trail, ?_, ?_⟩
    · rw [hw.disk]
      exact .refl _ _
    · rw [← hw.trail] at hc
      rcases cleanupFrom_exact hc with ⟨ps, -, -, -, hps, -⟩ | ⟨e', v, -, h', -⟩
      · rw [hw.disk, hw.trail, hl] at hps
        cases hps
      · exact result_of_ok ((cleanup_of_toUtc hm w').trans h')

/-- Exactly when a cleanup keeps the retention time: the instant it starts from is in the calendar, and every file is
judged by its time to the microsecond. So it is for every file where doubles tell microseconds apart. -/
theorem retains_iff (h : (cutoff.micros : ℤ) = now.instant - w.trail.config.retentionDays * microsPerDay) :
    (Retains now cutoff w ↔ (∃ m, now.toUtc = .ok m) ∧ Fair w cutoff) ∧
      (Distinct cutoff.sinceEpoch → ∀ m, fileSeconds m < seconds cutoff ↔ m < cutoff.sinceEpoch) := by
  refine ⟨?_, fun hd m => by rw [← not_le, seconds_le_fileSeconds_iff hd, not_le]⟩
  cases hm : now.toUtc with
  | error e =>
    refine iff_of_false (not_retains_of_toUtc hm) ?_
    rintro ⟨⟨m, hm'⟩, -⟩
    cases hm'
  | ok m =>
    have hc : cutoff? m w.trail.config.retentionDays = .ok cutoff := by
      refine cutoff?_eq ?_
      rw [micros_of_toUtc hm, h]
    rw [and_iff_right ⟨m, rfl⟩]
    unfold Fair
    rcases cleanupFrom_exact hc with ⟨ps, gone, d, w', hl, hrun, hsorted, hnodup, hgone, hw, hd⟩ | ⟨e, w', hl, hrun, hw⟩
    · rw [retains_iff_of_gone hm hc hrun hsorted hnodup hgone hw hd, goes_iff_expired, hl]
      constructor
      · intro hfair
        exact Or.inl ⟨ps, rfl, hfair⟩
      · rintro (⟨-, -, hfair⟩ | ⟨e, he, -⟩)
        · exact hfair
        · cases he
    · rw [retains_iff_of_unlisted hm hc hl hrun hw, hl]
      constructor
      · intro hnone
        exact Or.inr ⟨e, rfl, hnone⟩
      · rintro (⟨ps, hps, -⟩ | ⟨-, -, hnone⟩)
        · cases hps
        · exact hnone

def withFile (name : Text) (modified days : Int) : World :=
  let d := (Disk.empty "work" modified).placeDirectory ["work", "audit"] directoryMode
  unused { dir := .ofText "audit", retentionDays := days } true
    { bareSite with disk := d.create ["work", "audit", name] fileMode } { config := {} }

theorem notCurrent_withFile (name : Text) (modified days : Int) (n : Text) :
    NotCurrent (withFile name modified days) n := by
  intro c hc
  cases hc

/-- On the first of June 2025, in a zone two hours ahead, thirty days are kept to the microsecond. -/
theorem retains_of_june :
    let w := withFile "audit_expired.log" 1746143999999999 30
    let now : Timestamp := ⟨739402 * microsPerDay + 7200000000, some 7200000000⟩
    let cutoff : Moment := ⟨739372 * microsPerDay, by decide⟩
    (cutoff.micros : ℤ) = now.instant - w.trail.config.retentionDays * microsPerDay ∧ Retains now cutoff w ∧
      Expired w cutoff "audit_expired.log" := by
  intro w now cutoff
  have h : (cutoff.micros : ℤ) = now.instant - w.trail.config.retentionDays * microsPerDay := by decide +kernel
  obtain ⟨hiff, hexact⟩ := retains_iff h
  have hdistinct : Distinct cutoff.sinceEpoch := by
    unfold Distinct
    decide +kernel
  have hlist : list w.site.disk w.trail.config.dir = .ok [w.trail.config.dir.child "audit_expired.log"] := by
    decide +kernel
  refine ⟨h, hiff.2 ⟨⟨⟨739402 * microsPerDay, by decide⟩, by decide +kernel⟩, Or.inl ⟨_, hlist, fun n f _ _ => ?_⟩⟩, ?_⟩
  · rw [hexact hdistinct, and_iff_left]
    rintro ⟨e, he⟩
    cases he
  · exact ⟨⟨0, [], 1746143999999999, fileMode⟩, ⟨by decide +kernel, by decide +kernel⟩,
      notCurrent_withFile _ _ _ _, by decide +kernel⟩

theorem Retains.mem_iff (h : Retains now cutoff w) {names : List Text}
    (hrun : (cleanup (some now)).result w = .ok (names.map w.trail.config.dir.child)) (n : Text) :
    n ∈ names ↔ Expired w cutoff n := by
  obtain ⟨gone, w', hclean, -, -, hexpired, -⟩ := h
  rw [result_of_ok hclean] at hrun
  injection hrun with hpaths
  obtain rfl := List.map_injective_iff.2 (child_injective _) hpaths
  exact hexpired n

/-- Within the first seconds of 1970 a file is removed that is exactly as old as the retention time allows; in the
year 2242 one stays that is a microsecond older; and on the last evening of the calendar, west of Greenwich, a cleanup
fails. -/
theorem not_retains :
    let w := withFile "audit_a.log" 1005162 1
    let now : Timestamp := ⟨719163 * microsPerDay + 1005162, some 0⟩
    let cutoff : Moment := ⟨719162 * microsPerDay + 1005162, by decide⟩
    let w' := withFile "audit_a.log" 8589934592000001 1
    let now' : Timestamp := ⟨719163 * microsPerDay + 8589934592000002, some 0⟩
    let cutoff' : Moment := ⟨719162 * microsPerDay + 8589934592000002, by decide⟩
    let now'' : Timestamp := ⟨3652058 * microsPerDay + 86340000000, some (-18000000000)⟩
    let cutoff'' : Moment := ⟨3652058 * microsPerDay + 17940000000, by decide⟩
    ((cutoff.micros : ℤ) = now.instant - w.trail.config.retentionDays * microsPerDay ∧ ¬Retains now cutoff w) ∧
    ((cutoff'.micros : ℤ) = now'.instant - w'.trail.config.retentionDays * microsPerDay ∧ ¬Retains now' cutoff' w') ∧
    (cutoff''.micros : ℤ) = now''.instant - w.trail.config.retentionDays * microsPerDay ∧ ¬Retains now'' cutoff'' w := by
  intro w now cutoff w' now' cutoff' now'' cutoff''
  refine ⟨⟨by decide +kernel, fun h => ?_⟩, ⟨by decide +kernel, fun h => ?_⟩, by decide +kernel, ?_⟩
  · have hrun : (cleanup (some now)).result w = .ok (["audit_a.log"].map w.trail.config.dir.child) := by
      decide +kernel
    obtain ⟨f, hf, -, hold⟩ := (h.mem_iff hrun "audit_a.log").1 (by decide)
    have hfile : IsLogFile w.site.disk w.trail.config.dir "audit_a.log" ⟨0, [], 1005162, fileMode⟩ :=
      ⟨by decide +kernel, by decide +kernel⟩
    rw [hf.eq hfile] at hold
    exact absurd hold (by decide +kernel)
  · have hrun : (cleanup (some now')).result w' = .ok (([] : List Text).map w'.trail.config.dir.child) := by
      decide +kernel
    exact absurd ((h.mem_iff hrun "audit_a.log").2 ⟨⟨0, [], 8589934592000001, fileMode⟩,
      ⟨by decide +kernel, by decide +kernel⟩, notCurrent_withFile _ _ _ _, by decide +kernel⟩) List.not_mem_nil
  · have hm : now''.toUtc = .error .overflow := by decide +kernel
    exact not_retains_of_toUtc hm

end Retention

end Custody.Audit
