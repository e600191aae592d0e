import Custody.Proofs.Audit.Writing
import Custody.Proofs.Data.Value

/-! How a trail is opened, takes reports and is closed: every way in which each of these acts can end. -/
namespace Custody.Audit
open Act Archive

variable {w : World}

theorem isMalformed_wordOf {α : Type} [Vocabulary α] {v : Value} {f : Failure}
    (h : (wordOf v : Except Failure α) = .error f) : isMalformed f = true := by
  rcases Failure.bind_eq_error.1 h with h | ⟨t, -, h⟩
  · rw [Value.display_eq_error h]
    rfl
  · split at h
    · cases h
    · cases h
      rfl

/-- A value that names a word has a text. -/
theorem hasText_of_wordOf {α : Type} [Vocabulary α] {v : Value} {w : α} (h : wordOf v = .ok w) : v.HasText := by
  obtain ⟨t, ht, -⟩ := Failure.bind_eq_ok.1 h
  exact (Value.display_eq_ok_iff v).1 ⟨t, ht⟩

private theorem isMalformed_metadataOf {v : Value} {f : Failure} (h : Entry.metadataOf v = .error f) :
    isMalformed f = true := by
  unfold Entry.metadataOf at h
  split at h
  · next fields =>
    induction fields with
    | nil => cases h
    | cons g rest ih =>
      rw [List.mapM_cons] at h
      rcases Failure.bind_eq_error.1 h with h | ⟨first, -, h⟩
      · rcases Failure.bind_eq_error.1 h with h | ⟨t, -, h⟩
        · rw [Value.display_eq_error h]
          rfl
        · cases h
      · rcases Failure.bind_eq_error.1 h with h | ⟨others, -, h⟩
        · exact ih h
        · cases h
  · cases h
    rfl

/-- A report that makes no entry is wrong in itself. -/
theorem isMalformed_entry {r : Report} {now : Moment} {f : Failure} (h : r.entry now = .error f) :
    isMalformed f = true := by
  unfold Report.entry at h
  rcases Failure.bind_eq_error.1 h with hw | ⟨event, -, h⟩
  · exact isMalformed_wordOf hw
  rcases Failure.bind_eq_error.1 h with hw | ⟨action, -, h⟩
  · exact isMalformed_wordOf hw
  rcases Failure.bind_eq_error.1 h with hw | ⟨result, -, h⟩
  · exact isMalformed_wordOf hw
  dsimp only at h
  split at h
  · rcases Failure.bind_eq_error.1 h with hm | ⟨metadata, -, h⟩
    · exact isMalformed_metadataOf hm
    · cases h
  · cases h

/-- A report goes into the queue, or it is wrong in itself and nothing changes. -/
theorem enqueue_cases (r : Report) (w : World) :
    (∃ now e w', r.entry now = .ok e ∧ enqueue r w = .ok () w' ∧ w.Becomes (w.trail.enter e) w.site.disk w') ∨
    (∃ f w', isMalformed f = true ∧ enqueue r w = .error f w' ∧ w.Becomes w.trail w.site.disk w') := by
  have hb := (World.Becomes.refl w).clock w.site.clock.next
  unfold enqueue
  rw [now_bind]
  cases he : r.entry w.site.clock.now with
  | error f => exact Or.inr ⟨f, _, isMalformed_entry he, bind_of_error (require_error _ _), hb⟩
  | ok e =>
    rw [bind_of_ok (require_ok _ _), modifyTrail_bind]
    exact Or.inl ⟨_, e, _, he, note_eq _ _, hb.setTrail (w.trail.enter e)⟩

def ownEntry (now : Moment) (action : Action) (details : String) : Entry :=
  ⟨⟨now.micros, some 0⟩, .system, action, .success, .text details, .null, .null, []⟩

theorem wordOf_named_action (a : Action) : wordOf (named a) = .ok a := by
  cases a <;> decide +kernel

theorem entry_ownReport (now : Moment) (action : Action) (details : String) :
    (ownReport action details).entry now = .ok (ownEntry now action details) := by
  have hevent : wordOf (named Event.system) = .ok Event.system := by decide +kernel
  have hresult : wordOf (named Outcome.success) = .ok Outcome.success := by decide +kernel
  unfold Report.entry
  rw [show (ownReport action details).event = named Event.system from rfl, hevent,
    show (ownReport action details).action = named action from rfl, wordOf_named_action,
    show (ownReport action details).result = named Outcome.success from rfl, hresult]
  rfl

theorem json_ownEntry (now : Moment) (action : Action) (details : String) :
    ∃ line, (ownEntry now action details).json = .ok line := by
  obtain ⟨m, hm⟩ := dated_of_entry (entry_ownReport now action details)
  unfold Entry.json Entry.fields
  rw [hm]
  exact ⟨_, rfl⟩

theorem enqueue_ownReport (action : Action) (details : String) (w : World) :
    ∃ now w', enqueue (ownReport action details) w = .ok () w' ∧
      w.Becomes (w.trail.enter (ownEntry now action details)) w.site.disk w' := by
  have hb := (World.Becomes.refl w).clock w.site.clock.next
  unfold enqueue
  rw [now_bind, entry_ownReport, bind_of_ok (require_ok _ _), modifyTrail_bind]
  exact ⟨_, _, note_eq _ _, hb.setTrail _⟩

def Makeable (w : World) : Prop := ∃ d, Disk.makeDirectories directoryMode w.trail.config.dir w.site.disk = .ok () d

/-- The directory of the trail is there afterwards, or its path is refused. -/
theorem prepareDirectory_cases (w : World) :
    (∃ l mode d w', Makeable w ∧ w.site.disk.Prepares d ∧ d.locate w.trail.config.dir = .ok l ∧
      d.node? l = some (.directory mode) ∧ prepareDirectory w = .ok () w' ∧ w.Becomes w.trail d w') ∨
    (∃ e d w', ¬Makeable w ∧ w.site.disk.Prepares d ∧ w.trail.config.dir.Refuses e ∧
      prepareDirectory w = .error e w' ∧ w.Becomes w.trail d w') := by
  unfold prepareDirectory
  rw [get_bind]
  rcases Disk.makes_makeDirectories directoryMode w.trail.config.dir w.site.disk with
    ⟨l, mode, d, hd, hl, hn, hr⟩ | ⟨e, d, hd, he, hr⟩
  · have hplace : d.Prepares (d.placeDirectory l directoryMode) :=
      Disk.prepares_placeDirectory fun f hf => by rw [hn] at hf; cases hf
    rw [bind_of_ok (onDisk_ok hr), onDisk_ok (Disk.setMode_directory hl hn)]
    refine Or.inl ⟨l, directoryMode, _, _, ⟨d, hr⟩, hd.trans hplace, hplace.toHasDirectories.locate hl, ?_, rfl,
      (World.Becomes.refl w).setDisk _⟩
    rw [Disk.node?_placeDirectory, if_pos rfl]
  · rw [bind_of_error (onDisk_error hr)]
    refine Or.inr ⟨e, d, _, ?_, hd, he, rfl, (World.Becomes.refl w).setDisk _⟩
    rintro ⟨d', hr'⟩
    rw [hr] at hr'
    cases hr'

/-- With its first file open a trail begins to run. It reports that, unless there is no limit for the size
of its files. -/
theorem serve_cases {place : Location} (hl : w.site.disk.locate w.trail.config.dir = .ok place) :
    (∃ timer now limit w', timer.stuck = false ∧ w.trail.config.maxBytes = .ok limit ∧ serve w = .ok () w' ∧
      w.Becomes ((w.trail.serve timer).enter (ownEntry now .setUp "Audit trail started")) w.site.disk w') ∨
    (∃ timer f w', timer.stuck = false ∧ w.trail.config.maxBytes = .error f ∧ serve w = .error f w' ∧
      w.Becomes (w.trail.serve timer) w.site.disk w') := by
  have hb := (World.Becomes.refl w).setTrail (w.trail.serve (.start w.site.uptime w.trail.config))
  unfold serve
  rw [get_bind, modifyTrail_bind, hl, bind_of_ok (require_ok _ _)]
  cases hm : w.trail.config.maxBytes with
  | error f =>
    rw [bind_of_error (require_error _ _)]
    exact Or.inr ⟨_, f, _, rfl, rfl, rfl, hb⟩
  | ok limit =>
    rw [bind_of_ok (require_ok _ _)]
    obtain ⟨w₁, h₁, b₁⟩ := hb.report .info .audit "audit_initialized"
      [Value.field "dir" (.text (Disk.locationText place)), Value.field "max_size_bytes" (.int limit),
        Value.field "retention_days" (.int w.trail.config.retentionDays)]
    obtain ⟨now, w', h', b'⟩ := enqueue_ownReport .setUp "Audit trail started" w₁
    rw [b₁.trail, b₁.disk] at b'
    refine Or.inl ⟨_, now, limit, w', rfl, rfl, ?_, b₁.trans b'⟩
    exact (bind_of_ok h₁).trans h'

theorem giveUp_spec (w : World) :
    ∃ w', giveUp w = .error (.auditStorage w.trail.config.dir.text) w' ∧
      w.Becomes (w.trail.turn .fresh) w.site.disk w' := by
  unfold giveUp
  rw [modifyTrail_bind, get_bind]
  obtain ⟨w', h, hb⟩ := ((World.Becomes.refl w).setTrail (w.trail.turn .fresh)).report .error .audit
    "audit_initialize_failed" [Value.field "dir" (.text w.trail.config.dir.text)]
  exact ⟨w', (bind_of_ok h).trans rfl, hb⟩

/-- How the making of the directory and the first file ends: the path of the directory cannot name anything;
the machine refuses; or the file is there. -/
theorem storage_cases (w : World) :
    (∃ e d w', ¬w.trail.config.dir.Nameable ∧ (e = .surrogate ∨ e = .badValue) ∧
      (do prepareDirectory; rotate : Act Unit) w = .error e w' ∧ w.site.disk.Prepares d ∧ w.Becomes w.trail d w') ∨
    (∃ e t d w', w.trail.config.dir.Nameable ∧ e.isSystem = true ∧
      (do prepareDirectory; rotate : Act Unit) w = .error e w' ∧ w.site.disk.Prepares d ∧ w.Becomes t d w' ∧
      (t = w.trail.shut ∧ Makeable w ∨ t = w.trail ∧ ¬Makeable w)) ∨
    (∃ p l d place w', w.trail.config.dir.Nameable ∧ Makeable w ∧
      (do prepareDirectory; rotate : Act Unit) w = .ok () w' ∧ w.site.disk.Prepares d ∧ d.locate p = .ok l ∧
      d.node? l = none ∧ (d.create l fileMode).locate w.trail.config.dir = .ok place ∧
      w.Becomes (w.trail.begin p d.nextSerial) (d.create l fileMode) w') := by
  rcases prepareDirectory_cases w with ⟨place, mode, d, w₁, hmake, hd, hl, hn, h₁, b₁⟩ | ⟨e, d, w₁, hmake, hd, he, h₁, b₁⟩
  · have hdir : w.trail.config.dir.Nameable := Disk.nameable_of_locate hl
    rw [bind_of_ok h₁]
    rcases rotate_cases w₁ with ⟨p, l, w₂, hp, hfree, h₂, b₂⟩ | ⟨e, w₂, h₂, -, he, b₂⟩
    · rw [b₁.trail, b₁.disk] at b₂
      rw [b₁.disk] at hp hfree
      have hplace := (Disk.hasDirectories_create fileMode hfree).locate hl
      exact Or.inr (Or.inr ⟨p, l, d, place, w₂, hdir, hmake, h₂, hd, hp, hfree, hplace, b₁.trans b₂⟩)
    · rw [b₁.trail, b₁.disk] at b₂
      rw [b₁.trail] at he
      exact Or.inr (Or.inl ⟨e, _, d, w₂, hdir, he hdir, h₂, hd, b₁.trans b₂, Or.inl ⟨rfl, hmake⟩⟩)
  · rw [bind_of_error h₁]
    rcases he with ⟨he, hdir⟩ | ⟨he, hdir⟩
    · exact Or.inr (Or.inl ⟨e, _, d, w₁, hdir, he, rfl, hd, b₁, Or.inr ⟨rfl, hmake⟩⟩)
    · exact Or.inl ⟨e, d, w₁, hdir, he, rfl, hd, b₁⟩

/-- The directory and the first file of a trail can be made. -/
def Storable (w : World) : Prop :=
  (do prepareDirectory; rotate : Act Unit).Returns { w with trail := w.trail.turn .opening }

/-- The ends of an opening. -/
inductive Started (w : World) : EStateM.Result Failure World Unit → Prop where
  | unnameable (e : Failure) (d : Disk) (w' : World) (dir : ¬w.trail.config.dir.Nameable)
      (sort : e = .surrogate ∨ e = .badValue) (disk : w.site.disk.Prepares d)
      (becomes : w.Becomes (w.trail.turn .opening) d w') : Started w (.error e w')
  | refused (t : Trail) (d : Disk) (w' : World) (dir : w.trail.config.dir.Nameable) (storage : ¬Storable w)
      (disk : w.site.disk.Prepares d) (becomes : w.Becomes t d w')
      (trail : t = w.trail.shut ∧ Makeable w ∨ t = w.trail ∧ ¬Makeable w) :
      Started w (.error (.auditStorage w.trail.config.dir.text) w')
  | unlimited (p : Path) (l : Location) (d : Disk) (timer : Timer) (f : Failure) (w' : World)
      (dir : w.trail.config.dir.Nameable) (storage : Storable w) (disk : w.site.disk.Prepares d)
      (place : d.locate p = .ok l) (free : d.node? l = none) (timely : timer.stuck = false)
      (limit : w.trail.config.maxBytes = .error f)
      (becomes : w.Becomes ((w.trail.begin p d.nextSerial).serve timer) (d.create l fileMode) w') :
      Started w (.error f w')
  | opened (p : Path) (l : Location) (d : Disk) (timer : Timer) (now : Moment) (limit : Nat) (w' : World)
      (dir : w.trail.config.dir.Nameable) (storage : Storable w) (makeable : Makeable w)
      (disk : w.site.disk.Prepares d) (place : d.locate p = .ok l) (free : d.node? l = none)
      (timely : timer.stuck = false) (limited : w.trail.config.maxBytes = .ok limit)
      (becomes : w.Becomes (((w.trail.begin p d.nextSerial).serve timer).enter
        (ownEntry now .setUp "Audit trail started")) (d.create l fileMode) w') : Started w (.ok () w')

/-- How an opening ends: the path of the directory cannot name anything; the machine refuses; there is no
limit for the size of a file; or the trail runs. -/
theorem start_spec (hp : w.trail.phase = .fresh) : Started w (start w) := by
  let v : World := { w with trail := w.trail.turn .opening }
  have b₀ : w.Becomes v.trail v.site.disk v := (World.Becomes.refl w).setTrail _
  have hrun : start w =
      (orElse (do prepareDirectory; rotate) Failure.isSystem (fun _ => giveUp) >>= fun _ => serve) v := by
    unfold start
    rw [get_bind, if_neg (by simp [hp]), modifyTrail_bind]
    rfl
  have hback : ∀ t : Trail, t.phase = .fresh → (t.turn .opening).turn .fresh = t := by
    intro t ht
    cases t
    cases ht
    rfl
  rw [hrun]
  rcases storage_cases v with ⟨e, d, w₁, hdir, he, h₁, hd, b₁⟩ | ⟨e, t, d, w₁, hdir, he, h₁, hd, b₁, ht⟩ |
    ⟨p, l, d, place, w₁, hdir, hmake, h₁, hd, hl, hn, hplace, b₁⟩
  · have hsort : e.isSystem = false := by
      rcases he with rfl | rfl <;> rfl
    rw [bind_of_error (orElse_of_not_sort h₁ hsort)]
    exact .unnameable e d w₁ hdir he hd (b₀.trans b₁)
  · obtain ⟨w₂, h₂, b₂⟩ := giveUp_spec w₁
    have hconfig : t.config = w.trail.config := by
      rcases ht with ⟨rfl, -⟩ | ⟨rfl, -⟩ <;> rfl
    have hnot : ¬Storable w := not_returns_of_error h₁
    rw [bind_of_error ((orElse_of_sort h₁ he).trans h₂)]
    rw [b₁.trail, b₁.disk] at b₂
    rw [b₁.trail, hconfig]
    refine .refused _ d w₂ hdir hnot hd (b₀.trans (b₁.trans b₂)) ?_
    rcases ht with ⟨rfl, hm⟩ | ⟨rfl, hm⟩
    · exact Or.inl ⟨hback w.trail.shut hp, hm⟩
    · exact Or.inr ⟨hback w.trail hp, hm⟩
  · have hstored : Storable w := returns_of_ok h₁
    have hlocate : w₁.site.disk.locate w₁.trail.config.dir = .ok place := by
      rw [b₁.trail, b₁.disk]
      exact hplace
    have b := b₀.trans b₁
    rw [bind_of_ok (orElse_of_ok h₁)]
    rcases serve_cases hlocate with ⟨timer, now, limit, w', ht, hm, h', b'⟩ | ⟨timer, f, w', ht, hm, h', b'⟩
    · rw [b₁.trail, b₁.disk] at b'
      rw [b₁.trail] at hm
      rw [h']
      exact .opened p l d timer now limit w' hdir hstored hmake hd hl hn ht hm (b.trans b')
    · rw [b₁.trail, b₁.disk] at b'
      rw [b₁.trail] at hm
      rw [h']
      exact .unlimited p l d timer f w' hdir hstored hd hl hn ht hm (b.trans b')

theorem start_of_ne (hp : w.trail.phase ≠ .fresh) : start w = .ok () w := by
  unfold start
  rw [get_bind, if_pos hp]
  rfl

/-- However an opening ends, it is made of single steps. -/
theorem start_comes (w : World) : Comes w none (start.after w) none := by
  by_cases hp : w.trail.phase = .fresh
  · have hturn : (w.archive none).Steps ⟨w.trail.turn .opening, w.site.disk, none⟩ :=
      (Step.turned .opening (hp ▸ .opening)).steps
    have hfile : ∀ {d : Disk} {p : Path} {l : Location} {timer : Timer}, w.site.disk.Prepares d →
        d.locate p = .ok l → d.node? l = none → timer.stuck = false →
        (w.archive none).Steps
          ⟨(w.trail.begin p d.nextSerial).serve timer, d.create l fileMode, none⟩ := by
      intro d p l timer hd hl hn ht
      have hprepared := (Step.prepared (t := w.trail.turn .opening) (h := none) d hd).steps
      have hshut := (Step.closed (t := w.trail.turn .opening) (d := d) (h := none) nofun).steps
      have hopened := (Step.opened (t := (w.trail.turn .opening).shut) (h := none) p l rfl hl hn).steps
      have hserved := (Step.served (t := ((w.trail.turn .opening).shut).begin p d.nextSerial)
        (d := d.create l fileMode) (h := none) timer ht rfl rfl rfl).steps
      exact (((hturn.trans hprepared).trans hshut).trans hopened).trans hserved
    have hends := start_spec hp
    generalize hr : start w = r at hends
    cases hends with
    | unnameable e d w' _ _ hd hb =>
      rw [after_of_error hr]
      exact .of_becomes hb (hturn.trans (Step.prepared d hd).steps)
    | refused t d w' _ _ hd hb ht =>
      have hprepared : (w.archive none).Steps ⟨w.trail, d, none⟩ := (Step.prepared d hd).steps
      rw [after_of_error hr]
      rcases ht with ⟨rfl, -⟩ | ⟨rfl, -⟩
      · exact .of_becomes hb (hprepared.trans (Step.closed fun hr => by rw [hp] at hr; cases hr).steps)
      · exact .of_becomes hb hprepared
    | unlimited p l d timer f w' _ _ hd hl hn ht _ hb =>
      rw [after_of_error hr]
      exact .of_becomes hb (hfile hd hl hn ht)
    | opened p l d timer now limit w' _ _ _ hd hl hn ht _ hb =>
      have hqueued := (Step.queued (t := (w.trail.begin p d.nextSerial).serve timer) (d := d.create l fileMode)
        (h := none) _ now _ (entry_ownReport now .setUp "Audit trail started")).steps
      rw [after_of_ok hr]
      exact .of_becomes hb ((hfile hd hl hn ht).trans hqueued)
  · rw [after_of_ok (start_of_ne hp)]
    exact .refl w none

/-- Whether the end of the timer can be waited for, if it has to be. -/
def Waitable (t : Trail) : Prop :=
  ∀ timer, t.timer = some timer → timer.stuck = false → t.waits = true →
    waitFor t.config.shutdownTimeout = .ok ()

theorem stopTimer_cases (w : World) :
    (∃ w', Waitable w.trail ∧ stopTimer w = .ok () w' ∧ w.Becomes w.trail.timeless w.site.disk w') ∨
    (∃ f w', ¬Waitable w.trail ∧ stopTimer w = .error f w' ∧ w.Becomes w.trail.timeless w.site.disk w') := by
  have hb := (World.Becomes.refl w).setTrail w.trail.timeless
  unfold stopTimer
  rw [get_bind, modifyTrail_bind]
  cases ht : w.trail.timer with
  | none =>
    refine Or.inl ⟨_, ?_, rfl, hb⟩
    intro timer h
    rw [ht] at h
    cases h
  | some timer =>
    dsimp only
    split
    · next hs =>
      obtain ⟨w', h', b'⟩ := hb.report .warning .audit "audit_scheduler_stop_timeout"
        [Value.field "timeout_s" (.float w.trail.config.shutdownTimeout)]
      refine Or.inl ⟨w', ?_, h', b'⟩
      intro timer' h hn
      rw [ht] at h
      cases h
      rw [hs] at hn
      cases hn
    · next hs =>
      split
      · next hw =>
        cases hwait : waitFor w.trail.config.shutdownTimeout with
        | ok u => exact Or.inl ⟨_, fun _ _ _ _ => hwait, rfl, hb⟩
        | error f =>
          refine Or.inr ⟨f, _, ?_, rfl, hb⟩
          intro h
          have := h timer ht (Bool.eq_false_iff.2 hs) hw
          rw [hwait] at this
          cases this
      · next hw => exact Or.inl ⟨_, fun _ _ _ h => absurd h hw, rfl, hb⟩

/-- A trail that is being closed ends without anything waiting or open, unless the queue cannot be emptied or
the end of the timer cannot be waited for. -/
theorem retire_cases (hp : w.trail.phase = .closing) :
    (∃ w', flush.Returns w ∧ Waitable w.trail ∧ retire w = .ok () w' ∧ Comes w none w' none ∧
      w'.trail.phase = .stopped ∧ w'.trail.stream = none ∧ w'.trail.queue = []) ∨
    (∃ f w', ¬(flush.Returns w ∧ Waitable w.trail) ∧ retire w = .error f w' ∧ Comes w none w' none) := by
  unfold retire
  rcases flush_cases w with ⟨w₁, h₁, l₁, q₁⟩ | ⟨f, w₁, h₁, l₁, -⟩
  · have hwaitable : Waitable w₁.trail ↔ Waitable w.trail := by
      have hconfig : w₁.trail.config = w.trail.config := l₁.steps.config
      have hwaits : w₁.trail.waits = w.trail.waits := l₁.steps.waits
      rw [Waitable, Waitable, hconfig, hwaits, l₁.timer]
    have hclosing : w₁.trail.phase = .closing := l₁.phase.trans hp
    have htimeless := (Step.untimed (t := w₁.trail) (d := w₁.site.disk) (h := none)
      (by rw [hclosing]; nofun)).steps
    rw [bind_of_ok h₁]
    rcases stopTimer_cases w₁ with ⟨w₂, hw, h₂, b₂⟩ | ⟨f, w₂, hw, h₂, b₂⟩
    · have c₂ := l₁.toComes.trans (.of_becomes b₂ htimeless)
      have hq₂ : w₂.trail.queue = [] := by rw [b₂.trail]; exact q₁
      have hp₂ : w₂.trail.phase = .closing := by rw [b₂.trail]; exact hclosing
      obtain ⟨w₃, h₃, l₃, q₃⟩ := flush_of_empty hq₂
      obtain ⟨w₄, h₄, b₄⟩ := closeStream_spec w₃
      have hp₃ : w₃.trail.phase = .closing := l₃.phase.trans hp₂
      have hclosed := (Step.closed (t := w₃.trail) (d := w₃.site.disk) (h := none)
        (by rw [hp₃]; nofun)).steps
      have hturned := (Step.turned (t := w₃.trail.shut) (d := w₃.site.disk) (h := none) .stopped
        (show w₃.trail.phase.Turns .stopped from hp₃ ▸ .stopped)).steps
      obtain ⟨w', h', b'⟩ := (b₄.setTrail (w₃.trail.shut.turn .stopped)).report .info .audit
        "audit_shutdown_complete" []
      have hrun : (closeStream >>= fun _ => modifyTrail (fun t => { t with phase := .stopped }) >>= fun _ =>
          report .info .audit "audit_shutdown_complete" []) w₃ = .ok () w' := by
        rw [bind_of_ok h₄, modifyTrail_bind, b₄.trail]
        exact h'
      rw [bind_of_ok h₂, bind_of_ok h₃, hrun]
      refine Or.inl ⟨w', returns_of_ok h₁, hwaitable.1 hw, rfl,
        (c₂.trans l₃.toComes).trans (.of_becomes b' (hclosed.trans hturned)), ?_, ?_, ?_⟩
      · rw [b'.trail]
        rfl
      · rw [b'.trail]
        rfl
      · rw [b'.trail]
        exact q₃
    · rw [bind_of_error h₂]
      exact Or.inr ⟨f, w₂, fun h => hw (hwaitable.2 h.2), rfl, l₁.toComes.trans (.of_becomes b₂ htimeless)⟩
  · rw [bind_of_error h₁]
    exact Or.inr ⟨f, w₁, fun h => not_returns_of_error h₁ h.1, rfl, l₁.toComes⟩

/-- A trail about to close has put its last report into the queue. -/
theorem stop_eq (hp : w.trail.phase = .opening ∨ w.trail.phase = .running) :
    ∃ now v, stop w = retire v ∧ Comes w none v none ∧
      v.trail = (w.trail.enter (ownEntry now .shutdown "Audit trail shutting down")).turn .closing := by
  obtain ⟨now, w₁, h₁, b₁⟩ := enqueue_ownReport .shutdown "Audit trail shutting down" w
  have b₂ := b₁.setTrail ((w.trail.enter (ownEntry now .shutdown "Audit trail shutting down")).turn .closing)
  have hrun : stop w = retire { w₁ with trail := w₁.trail.turn .closing } := by
    unfold stop
    rw [get_bind]
    rcases hp with hp | hp
    · rw [hp]
      dsimp only
      rw [bind_of_ok h₁, modifyTrail_bind]
      rfl
    · rw [hp]
      dsimp only
      rw [bind_of_ok h₁, modifyTrail_bind]
      rfl
  have hqueued := (Step.queued (t := w.trail) (d := w.site.disk) (h := none) _ now _
    (entry_ownReport now .shutdown "Audit trail shutting down")).steps
  have hturns : w.trail.phase.Turns .closing := by
    rcases hp with hp | hp
    · rw [hp]
      exact .giveUp
    · rw [hp]
      exact .closing
  have hturned := (Step.turned (t := w.trail.enter (ownEntry now .shutdown "Audit trail shutting down"))
    (d := w.site.disk) (h := none) .closing hturns).steps
  rw [b₁.trail] at hrun
  exact ⟨now, _, hrun, .of_becomes b₂ (hqueued.trans hturned), rfl⟩

theorem stop_of_closed (hp : w.trail.phase = .closing ∨ w.trail.phase = .stopped) : stop w = .ok () w := by
  unfold stop
  rw [get_bind]
  rcases hp with hp | hp
  · rw [hp]
    rfl
  · rw [hp]
    rfl

theorem stop_of_fresh (hp : w.trail.phase = .fresh) :
    ∃ w', stop w = .ok () w' ∧ w.Becomes (w.trail.turn .stopped) w.site.disk w' := by
  unfold stop
  rw [get_bind, hp]
  exact ⟨_, rfl, (World.Becomes.refl w).setTrail _⟩

/-- A trail that is being closed stays so until it is closed for good. -/
def Phase.Ended (p : Phase) : Prop := p = .closing ∨ p = .stopped

theorem Archive.Step.ended {a b : Archive} (h : a.Step b) (ended : a.trail.phase.Ended) : b.trail.phase.Ended := by
  cases h with
  | turned p turn =>
    rcases ended with h | h
    · rw [h] at turn
      cases turn
      exact Or.inr rfl
    · rw [h] at turn
      cases turn
  | served timer timely phase => rcases ended with h | h <;> rw [phase] at h <;> cases h
  | _ => exact ended

/-- However a closing ends, it is made of single steps, and the trail takes nothing any more. -/
theorem stop_spec (w : World) : Comes w none (stop.after w) none ∧ (stop.after w).trail.phase.Ended := by
  have hclose : w.trail.phase = .opening ∨ w.trail.phase = .running →
      Comes w none (stop.after w) none ∧ (stop.after w).trail.phase.Ended := by
    intro hp
    obtain ⟨now, v, hrun, hv, ht⟩ := stop_eq hp
    have hclosing : v.trail.phase = .closing := by rw [ht]; rfl
    have hretire : Comes v none (stop.after w) none := by
      rcases retire_cases hclosing with ⟨w', -, -, h, hc, -⟩ | ⟨f, w', -, h, hc⟩
      · rwa [after_of_ok (hrun.trans h)]
      · rwa [after_of_error (hrun.trans h)]
    exact ⟨hv.trans hretire, hretire.steps.keep (P := fun a => a.trail.phase.Ended) Step.ended (Or.inl hclosing)⟩
  cases hp : w.trail.phase with
  | fresh =>
    obtain ⟨w', h, hb⟩ := stop_of_fresh hp
    rw [after_of_ok h, hb.trail]
    exact ⟨.of_becomes hb (Step.turned .stopped (hp ▸ .never)).steps, Or.inr rfl⟩
  | opening => exact hclose (Or.inl hp)
  | running => exact hclose (Or.inr hp)
  | closing =>
    rw [after_of_ok (stop_of_closed (Or.inl hp))]
    exact ⟨.refl w none, Or.inl hp⟩
  | stopped =>
    rw [after_of_ok (stop_of_closed (Or.inr hp))]
    exact ⟨.refl w none, Or.inr hp⟩

/-- What a report says that has happened and been done can be told. -/
structure Report.Told (r : Report) : Prop where
  event : r.event.HasText
  action : r.action.HasText

theorem told_of_entry {r : Report} {now : Moment} {e : Entry} (h : r.entry now = .ok e) : r.Told := by
  obtain ⟨event, hevent, h⟩ := Failure.bind_eq_ok.1 h
  obtain ⟨action, haction, -⟩ := Failure.bind_eq_ok.1 h
  exact ⟨hasText_of_wordOf hevent, hasText_of_wordOf haction⟩

/-- What was turned away is told of if it can be told. -/
theorem tellRejected_cases (r : Report) {v : World} (hb : w.Becomes w.trail.reject w.site.disk v) :
    (∃ w', r.Told ∧ tellRejected r v = .ok () w' ∧ w.Becomes w.trail.reject w.site.disk w') ∨
    (¬r.Told ∧ tellRejected r v = .error .badValue v) := by
  unfold tellRejected
  rcases Value.display_shown r.event with ⟨hevent, event, h⟩ | ⟨hevent, h⟩
  · rcases Value.display_shown r.action with ⟨haction, action, h'⟩ | ⟨haction, h'⟩
    · obtain ⟨w', hreport, hb'⟩ := hb.report .warning .audit "audit_entry_invalid"
        [Value.field "event" (.text event), Value.field "action" (.text action)]
      refine Or.inl ⟨w', ⟨hevent, haction⟩, ?_, hb'⟩
      rwa [h, h', bind_of_ok (require_ok event v), bind_of_ok (require_ok action v)]
    · refine Or.inr ⟨fun told => haction told.action, ?_⟩
      rw [h, h', bind_of_ok (require_ok event v), bind_of_error (require_error _ v)]
  · refine Or.inr ⟨fun told => hevent told.event, ?_⟩
    rw [h, bind_of_error (require_error _ v)]

/-- The ends of a report: a trail that does not run takes nothing; a running one puts its entry into the queue, or turns
it away, and fails if it cannot tell what it has turned away. -/
inductive Taken (r : Report) (w : World) : EStateM.Result Failure World Unit → Prop where
  | ignored (idle : w.trail.phase ≠ .running) : Taken r w (.ok () w)
  | queued (now : Moment) (e : Entry) (w' : World) (running : w.trail.phase = .running) (made : r.entry now = .ok e)
      (becomes : w.Becomes (w.trail.enter e) w.site.disk w') : Taken r w (.ok () w')
  | rejected (w' : World) (running : w.trail.phase = .running) (told : r.Told)
      (becomes : w.Becomes w.trail.reject w.site.disk w') : Taken r w (.ok () w')
  | untold (w' : World) (running : w.trail.phase = .running) (untold : ¬r.Told)
      (becomes : w.Becomes w.trail.reject w.site.disk w') : Taken r w (.error .badValue w')

theorem accept_spec (r : Report) (w : World) : Taken r w (accept r w) := by
  unfold accept
  rw [get_bind]
  by_cases running : w.trail.phase = .running
  · rw [if_neg (by simp [running])]
    rcases enqueue_cases r w with ⟨now, e, w', he, h, hb⟩ | ⟨f, w₁, hf, h, hb⟩
    · rw [orElse_of_ok h]
      exact .queued now e w' running he hb
    · have hreject := hb.setTrail w.trail.reject
      rw [orElse_of_sort h hf, modifyTrail_bind, bind_of_ok (note_eq _ _), hb.trail]
      rcases tellRejected_cases r hreject with ⟨w', told, h', b'⟩ | ⟨untold, h'⟩
      · exact h' ▸ .rejected w' running told b'
      · exact h' ▸ .untold _ running untold hreject
  · rw [if_pos running]
    exact .ignored running

/-- A report that can be told is always taken. -/
theorem accept_told {r : Report} (told : r.Told) (w : World) : ∃ w', accept r w = .ok () w' := by
  have hspec := accept_spec r w
  generalize accept r w = result at hspec
  cases hspec with
  | ignored => exact ⟨w, rfl⟩
  | queued _ _ w' => exact ⟨w', rfl⟩
  | rejected w' => exact ⟨w', rfl⟩
  | untold _ _ untold => exact absurd told untold

/-- However a report ends, the trail goes on. -/
theorem accept_leads (r : Report) (w : World) : Leads w none ((accept r).after w) none := by
  have hspec := accept_spec r w
  unfold after
  generalize accept r w = result at hspec
  cases hspec with
  | ignored => exact .refl w none
  | queued now e w' _ made becomes => exact .of_becomes becomes (Step.queued r now e made).steps rfl rfl
  | rejected w' running _ becomes => exact .of_becomes becomes (Step.rejected running).steps rfl rfl
  | untold w' running _ becomes => exact .of_becomes becomes (Step.rejected running).steps rfl rfl

theorem phase_accept (r : Report) (w : World) : ((accept r).after w).trail.phase = w.trail.phase :=
  (accept_leads r w).phase

theorem log_of_ne_fresh (r : Report) (hp : w.trail.phase ≠ .fresh) : log r w = accept r w := by
  unfold log
  rw [get_bind]
  split
  · exact bind_of_ok (start_of_ne hp)
  · rfl

/-- A report is taken after the trail has been opened if need be. -/
theorem log_eq_bind (r : Report) (w : World) : log r w = (start >>= fun _ => accept r) w := by
  by_cases fresh : w.trail.phase = .fresh
  · unfold log
    rw [get_bind, if_pos (Or.inl fresh)]
  · rw [log_of_ne_fresh r fresh, bind_of_ok (start_of_ne fresh)]

theorem log_of_ok (r : Report) {v : World} (h : start w = .ok () v) : log r w = accept r v :=
  (log_eq_bind r w).trans (bind_of_ok h)

theorem log_of_error (r : Report) {f : Failure} {v : World} (h : start w = .error f v) : log r w = .error f v :=
  (log_eq_bind r w).trans (bind_of_error h)

theorem after_log (r : Report) {v : World} (h : start w = .ok () v) : (log r).after w = (accept r).after v := by
  rw [after, after, log_of_ok r h]

theorem log_comes (r : Report) (w : World) : Comes w none ((log r).after w) none := by
  have hstart := start_comes w
  cases h : start w with
  | ok u v =>
    rw [after_of_ok h] at hstart
    rw [after_log r h]
    exact hstart.trans (accept_leads r v).toComes
  | error f v =>
    rw [after_of_error h] at hstart
    rwa [after_of_error (log_of_error r h)]

theorem enqueue_comes (r : Report) (w : World) : Comes w none ((enqueue r).after w) none := by
  rcases enqueue_cases r w with ⟨now, e, w', he, h, hb⟩ | ⟨f, w', -, h, hb⟩
  · rw [after_of_ok h]
    exact .of_becomes hb (Step.queued r now e he).steps
  · rw [after_of_error h]
    exact .of_becomes hb (.refl _)

theorem flush_leads (w : World) : Leads w none (flush.after w) none := by
  rcases flush_cases w with ⟨w', h, hl, -⟩ | ⟨f, w', h, hl, -⟩
  · rwa [after_of_ok h]
  · rwa [after_of_error h]

section Cleanup
variable {d : Disk} {dir : Path}

private theorem onlyFiles_error {ps : List Path} {e : Failure} (h : onlyFiles d ps = .error e) :
    e.isSystem = true := by
  induction ps with
  | nil => cases h
  | cons p rest ih =>
    unfold onlyFiles at h
    rcases Failure.bind_eq_error.1 h with h | ⟨b, -, h⟩
    · exact (Disk.check_error h).1
    · cases b with
      | false => exact ih h
      | true =>
        rcases Failure.bind_eq_error.1 h with h | ⟨kept, -, h⟩
        · exact ih h
        · cases h

private theorem isFile_of_mem_onlyFiles {ps kept : List Path} (h : onlyFiles d ps = .ok kept) {p : Path}
    (hp : p ∈ kept) : d.isFile p = .ok true := by
  induction ps generalizing kept with
  | nil =>
    cases h
    cases hp
  | cons q rest ih =>
    unfold onlyFiles at h
    obtain ⟨b, hb, h⟩ := Failure.bind_eq_ok.1 h
    cases b with
    | false => exact ih h hp
    | true =>
      obtain ⟨others, ho, h⟩ := Failure.bind_eq_ok.1 h
      cases h
      rcases List.mem_cons.1 hp with rfl | hp
      · exact hb
      · exact ih ho hp

/-- Only the machine keeps the files of a directory from being listed. -/
theorem list_error {e : Failure} (h : list d dir = .error e) : e.isSystem = true := by
  unfold list at h
  rcases Failure.bind_eq_error.1 h with h | ⟨b, hb, h⟩
  · exact (Disk.check_error h).1
  · cases b with
    | false => cases h
    | true =>
      obtain ⟨l, n, hl, -, -⟩ := Disk.check_true hb
      rw [if_pos rfl, hl] at h
      exact onlyFiles_error h

private theorem isFile_of_mem_list {ps : List Path} (h : list d dir = .ok ps) {p : Path} (hp : p ∈ ps) :
    d.isFile p = .ok true := by
  unfold list at h
  obtain ⟨b, hb, h⟩ := Failure.bind_eq_ok.1 h
  cases b with
  | false =>
    cases h
    cases hp
  | true =>
    obtain ⟨l, -, h⟩ := Failure.bind_eq_ok.1 h
    exact isFile_of_mem_onlyFiles h hp

/-- The files can always be listed; those of a directory that cannot be read are none. -/
theorem logFiles_spec (w : World) :
    ∃ ps w', logFiles w = .ok ps w' ∧ w.Becomes w.trail w.site.disk w' ∧ ∀ p ∈ ps, p.Nameable := by
  unfold logFiles
  rw [get_bind]
  cases h : list w.site.disk w.trail.config.dir with
  | error e =>
    rw [orElse_of_sort (require_error e w) (list_error h)]
    obtain ⟨w', h', hb⟩ := (World.Becomes.refl w).report .warning .audit "audit_dir_unreadable"
      [Value.field "dir" (.text w.trail.config.dir.text)]
    exact ⟨[], w', bind_of_ok h', hb, nofun⟩
  | ok ps =>
    rw [orElse_of_ok (require_ok ps w)]
    refine ⟨ps, w, rfl, .refl w, fun p hp => ?_⟩
    obtain ⟨l, n, hl, -, -⟩ := Disk.check_true (isFile_of_mem_list h hp)
    exact Disk.nameable_of_locate hl

private theorem removeFile_cases {p : Path} (hp : p.Nameable) (w : World) :
    (∃ l, removeFile p w = .ok () { w with site := { w.site with disk := w.site.disk.keep fun k => k ≠ l } }) ∨
    (∃ e, e.isSystem = true ∧ removeFile p w = .error e w) := by
  unfold removeFile
  rw [get_bind]
  cases w.site.refusals.removals.lookup p.name with
  | some e => exact Or.inr ⟨_, Failure.isSystem_system e, rfl⟩
  | none =>
    dsimp only
    rcases Disk.remove_cases p w.site.disk with ⟨l, f, -, -, h⟩ | ⟨e, he, h⟩
    · exact Or.inl ⟨l, onDisk_ok h⟩
    · exact Or.inr ⟨e, he.isSystem_iff.2 hp, onDisk_error h⟩

/-- One file is removed, or not, or the machine refuses. -/
theorem removeIfOld_cases (cutoff : Moment) {p : Path} (hp : p.Nameable) (w : World) :
    (∃ b w', removeIfOld cutoff p w = .ok b w' ∧ Comes w none w' none ∧ w'.trail = w.trail) ∨
    (∃ e, e.isSystem = true ∧ removeIfOld cutoff p w = .error e w) := by
  unfold removeIfOld
  rw [get_bind]
  cases hs : w.site.disk.stat p with
  | error e =>
    rw [bind_of_error (require_error _ _)]
    refine Or.inr ⟨e, ?_, rfl⟩
    rcases Disk.stat_error hs with h | rfl
    · exact (Disk.locate_error h).isSystem_iff.2 hp
    · rfl
  | ok n =>
    rw [bind_of_ok (require_ok _ _)]
    cases n with
    | directory mode => exact Or.inl ⟨false, w, rfl, .refl w none, rfl⟩
    | file f =>
      dsimp only
      split
      · exact Or.inl ⟨false, w, rfl, .refl w none, rfl⟩
      · rcases removeFile_cases hp w with ⟨l, h⟩ | ⟨e, he, h⟩
        · exact Or.inl ⟨true, _, bind_of_ok h, ⟨(Step.removed l).steps, rfl⟩, rfl⟩
        · exact Or.inr ⟨e, he, bind_of_error h⟩

/-- Old files can always be swept away, as far as the machine lets them go. -/
theorem sweep_spec (cutoff : Moment) {ps : List Path} (hps : ∀ p ∈ ps, p.Nameable) (w : World) :
    ∃ removed w', sweep cutoff ps w = .ok removed w' ∧ Comes w none w' none ∧ w'.trail = w.trail := by
  induction ps generalizing w with
  | nil => exact ⟨[], w, rfl, .refl w none, rfl⟩
  | cons p rest ih =>
    have hrest : ∀ q ∈ rest, q.Nameable := fun q hq => hps q (List.mem_cons_of_mem _ hq)
    have step : ∀ {v : World}, Comes w none v none → v.trail = w.trail →
        ∃ removed w', sweep cutoff rest v = .ok removed w' ∧ Comes w none w' none ∧ w'.trail = w.trail := by
      intro v hv ht
      obtain ⟨removed, w', h, hc, ht'⟩ := ih hrest v
      exact ⟨removed, w', h, hv.trans hc, ht'.trans ht⟩
    have told : ∀ {v : World} (level : Level) (message : String), Comes w none v none → v.trail = w.trail →
        ∃ v', report level .audit message [Value.field "file" (.text p.name)] v = .ok () v' ∧
          Comes w none v' none ∧ v'.trail = w.trail := by
      intro v level message hv ht
      obtain ⟨v', h, hb⟩ := (World.Becomes.refl v).report level .audit message [Value.field "file" (.text p.name)]
      exact ⟨v', h, hv.trans (.of_becomes hb (.refl _)), hb.trail.trans ht⟩
    have tried : ∃ b w₁, orElse (removeIfOld cutoff p) Failure.isSystem (fun e => do
        if e ≠ .system .notFound then
          report .warning .audit "audit_log_delete_failed" [Value.field "file" (.text p.name)]
        return false) w = .ok b w₁ ∧ Comes w none w₁ none ∧ w₁.trail = w.trail := by
      rcases removeIfOld_cases cutoff (hps p List.mem_cons_self) w with ⟨b, w₁, h, hc, ht⟩ | ⟨e, he, h⟩
      · exact ⟨b, w₁, orElse_of_ok h, hc, ht⟩
      · rw [orElse_of_sort h he]
        split
        · obtain ⟨w₁, h₁, hc, ht⟩ := told .warning "audit_log_delete_failed" (.refl w none) rfl
          exact ⟨false, w₁, bind_of_ok h₁, hc, ht⟩
        · exact ⟨false, w, rfl, .refl w none, rfl⟩
    unfold sweep
    rw [get_bind]
    split
    · exact step (.refl w none) rfl
    · obtain ⟨b, w₁, h₁, hc, ht⟩ := tried
      rw [bind_of_ok h₁]
      cases b with
      | false => exact step hc ht
      | true =>
        obtain ⟨w₂, h₂, hc₂, ht₂⟩ := told .info "audit_log_deleted" hc ht
        obtain ⟨removed, w', h', hc', ht'⟩ := step hc₂ ht₂
        rw [if_pos rfl, bind_of_ok h₂]
        exact ⟨p :: removed, w', bind_of_ok h', hc', ht'⟩

/-- The instant from which a cleanup counts back. -/
def instantOf (w : World) : Option Timestamp → Except Failure Moment
  | some t => t.toUtc
  | none => .ok w.site.clock.now

theorem cleanupFrom_cases (now : Moment) (w : World) :
    (∃ cutoff removed w', cutoff? now w.trail.config.retentionDays = .ok cutoff ∧
      cleanupFrom now w = .ok removed w' ∧ Comes w none w' none ∧ w'.trail = w.trail) ∨
    (∃ f, cutoff? now w.trail.config.retentionDays = .error f ∧ cleanupFrom now w = .error f w) := by
  unfold cleanupFrom
  rw [get_bind]
  cases cutoff? now w.trail.config.retentionDays with
  | error f => exact Or.inr ⟨f, rfl, bind_of_error (require_error _ _)⟩
  | ok cutoff =>
    obtain ⟨ps, w₁, h₁, b₁, hps⟩ := logFiles_spec w
    obtain ⟨removed, w', h', hc, ht⟩ := sweep_spec cutoff hps w₁
    rw [bind_of_ok (require_ok _ _), bind_of_ok h₁]
    exact Or.inl ⟨cutoff, removed, w', rfl, h', (Comes.of_becomes b₁ (.refl _)).trans hc, ht.trans b₁.trail⟩

theorem cleanup_eq (now : Option Timestamp) (w : World) :
    (∃ m v, instantOf w now = .ok m ∧ cleanup now w = cleanupFrom m v ∧ w.Becomes w.trail w.site.disk v) ∨
    (∃ f, instantOf w now = .error f ∧ cleanup now w = .error f w) := by
  cases now with
  | none => exact Or.inl ⟨_, _, rfl, rfl, (World.Becomes.refl w).clock _⟩
  | some t =>
    unfold cleanup instantOf
    dsimp only
    cases t.toUtc with
    | ok m => exact Or.inl ⟨m, w, rfl, bind_of_ok (require_ok _ _), .refl w⟩
    | error f => exact Or.inr ⟨f, rfl, bind_of_error (require_error _ _)⟩

/-- A cleanup changes nothing of the trail. It fails just when there is no instant before which files are
old. -/
theorem cleanup_cases (now : Option Timestamp) (w : World) :
    (∃ m cutoff removed w', instantOf w now = .ok m ∧ cutoff? m w.trail.config.retentionDays = .ok cutoff ∧
      cleanup now w = .ok removed w' ∧ Comes w none w' none ∧ w'.trail = w.trail) ∨
    (∃ f w', (∀ m, instantOf w now = .ok m → cutoff? m w.trail.config.retentionDays = .error f) ∧
      cleanup now w = .error f w' ∧ w.Becomes w.trail w.site.disk w') := by
  rcases cleanup_eq now w with ⟨m, v, hm, hrun, hb⟩ | ⟨f, hm, hrun⟩
  · rcases cleanupFrom_cases m v with ⟨cutoff, removed, w', hc, h, hcome, ht⟩ | ⟨f, hf, h⟩
    · rw [hb.trail] at hc ht
      have hv : Comes w none v none := .of_becomes hb (.refl _)
      exact Or.inl ⟨m, cutoff, removed, w', hm, hc, hrun.trans h, hv.trans hcome, ht⟩
    · rw [hb.trail] at hf
      refine Or.inr ⟨f, v, ?_, hrun.trans h, hb⟩
      intro m' hm'
      rw [hm] at hm'
      cases hm'
      exact hf
  · refine Or.inr ⟨f, w, ?_, hrun, .refl w⟩
    intro m h
    rw [hm] at h
    cases h

/-- However a cleanup ends, it is made of single steps, and the trail stays as it is. -/
theorem cleanup_spec (now : Option Timestamp) (w : World) :
    Comes w none ((cleanup now).after w) none ∧ ((cleanup now).after w).trail = w.trail := by
  rcases cleanup_cases now w with ⟨-, -, removed, w', -, -, h, hc, ht⟩ | ⟨f, w', -, h, hb⟩
  · rw [after_of_ok h]
    exact ⟨hc, ht⟩
  · rw [after_of_error h]
    exact ⟨.of_becomes hb (.refl _), hb.trail⟩

/-- Counted back from an instant by some days, the calendar is not left. -/
def InCalendar (m : Moment) (days : Int) : Prop :=
  0 ≤ (m.micros : Int) - days * microsPerDay ∧
    (m.micros : Int) - days * microsPerDay < (Date.dayCount * microsPerDay : Nat)

private theorem cutoff_ok_iff (m : Moment) (days : Int) :
    (∃ cutoff, cutoff? m days = .ok cutoff) ↔ days ≤ maxDays ∧ InCalendar m days := by
  unfold cutoff? InCalendar
  by_cases hd : maxDays < days
  · rw [if_pos hd]
    exact iff_of_false (fun ⟨_, h⟩ => by cases h) (fun h => by omega)
  · rw [if_neg hd, Moment.ofMicros?]
    split
    · next h =>
      split at h
      · next hin => exact iff_of_true ⟨_, rfl⟩ (by omega)
      · cases h
    · next h =>
      split at h
      · cases h
      · next hin => exact iff_of_false (fun ⟨_, h⟩ => by cases h) (by omega)

/-- Exactly when a cleanup succeeds: the retention time is a span of days, and counted back it stays in the
calendar. -/
theorem cleanup_returns {now : Option Timestamp} {m : Moment} (hm : instantOf w now = .ok m) :
    (cleanup now).Returns w ↔
      w.trail.config.retentionDays ≤ maxDays ∧ InCalendar m w.trail.config.retentionDays := by
  rw [← cutoff_ok_iff]
  rcases cleanup_cases now w with ⟨m', cutoff, removed, w', hm', hc, h, -, -⟩ | ⟨f, w', hf, h, -⟩
  · rw [hm] at hm'
    cases hm'
    exact iff_of_true (returns_of_ok h) ⟨cutoff, hc⟩
  · refine iff_of_false (not_returns_of_error h) ?_
    rintro ⟨cutoff, hc⟩
    rw [hf m hm] at hc
    cases hc

end Cleanup

end Custody.Audit
