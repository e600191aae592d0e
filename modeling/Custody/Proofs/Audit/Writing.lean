import Custody.Proofs.Audit.Ledger
import Custody.Proofs.Audit.Naming

/-! How entries are written: every way in which each act on the files of a trail can end. -/
namespace Custody.Audit
open Act Archive

variable {w : World}

theorem isLoss_of_system {f : Failure} (h : f.isSystem = true) : isLoss f = true := by
  rw [isLoss, h]
  rfl

theorem isLoss_of_refuses {p : Path} {f : Failure} (h : p.Refuses f) : isLoss f = true := by
  rcases h.isLoss with h | h
  · exact isLoss_of_system h
  · rw [isLoss, h, Bool.or_true]
    rfl

theorem note_eq (d : Deed) (w : World) :
    note d w = .ok () { w with trail := { w.trail with journal := d :: w.trail.journal } } := rfl

theorem closeStream_exact (w : World) :
    ∃ w', closeStream w = .ok () w' ∧ World.Tidied { w with trail := w.trail.shut } w.site.disk w' := by
  unfold closeStream
  rw [get_bind]
  cases hs : w.trail.stream with
  | none =>
    have ht : w.trail.shut = w.trail := by rw [Trail.shut, ← hs]
    rw [ht]
    exact ⟨w, rfl, .refl w⟩
  | some s =>
    dsimp only
    rw [modifyTrail_bind]
    have hw := World.Tidied.refl { w with trail := w.trail.shut }
    split
    · exact hw.report _ _ _ _
    · exact ⟨_, rfl, hw⟩

theorem closeStream_spec (w : World) :
    ∃ w', closeStream w = .ok () w' ∧ w.Becomes w.trail.shut w.site.disk w' := by
  obtain ⟨w', h, hw⟩ := closeStream_exact w
  exact ⟨w', h, ((World.Becomes.refl w).setTrail w.trail.shut).trans hw.becomes⟩

/-- Where there is nothing, an empty file is made, or the attempt fails and leaves everything as it was. -/
theorem openFile_cases {p : Path} (h : w.site.disk.pathExists p = .ok false) :
    (∃ l w', w.site.disk.locate p = .ok l ∧ w.site.disk.node? l = none ∧
      openFile p w = .ok w.site.disk.nextSerial w' ∧ w.Becomes w.trail (w.site.disk.create l fileMode) w') ∨
    (∃ e w', openFile p w = .error e w' ∧ (e.isSystem = true ∨ p.Refuses e) ∧
      w.Becomes w.trail w.site.disk w') := by
  have attempt : ∀ {v : World}, v.site.disk = w.site.disk → w.Becomes w.trail w.site.disk v →
      (∃ l w', w.site.disk.locate p = .ok l ∧ w.site.disk.node? l = none ∧
        onDisk (Disk.openAppend fileMode p) v = .ok w.site.disk.nextSerial w' ∧
        w.Becomes w.trail (w.site.disk.create l fileMode) w') ∨
      (∃ e w', onDisk (Disk.openAppend fileMode p) v = .error e w' ∧ (e.isSystem = true ∨ p.Refuses e) ∧
        w.Becomes w.trail w.site.disk w') := by
    intro v hd hv
    rcases Disk.openAppend_cases fileMode h with ⟨l, hl, hn, ho⟩ | ⟨e, he, ho⟩
    · exact Or.inl ⟨l, _, hl, hn, onDisk_ok (hd ▸ ho), hv.setDisk _⟩
    · exact Or.inr ⟨e, _, onDisk_error (hd ▸ ho), Or.inr he, hv.setDisk _⟩
  unfold openFile
  rw [get_bind]
  cases w.site.refusals.openings with
  | nil => exact attempt rfl (.refl w)
  | cons refusal rest =>
    dsimp only
    rw [modifySite_bind]
    cases refusal with
    | some e => exact Or.inr ⟨_, _, rfl, Or.inl (Failure.isSystem_system e), (World.Becomes.refl w).refusals _⟩
    | none => exact attempt rfl ((World.Becomes.refl w).refusals _)

/-- A file is opened where the names of the instant are first free: it is new and empty. Or no file is open any
more. -/
theorem rotate_exact (w : World) :
    (∃ k l w', FirstFree w.site.disk w.trail.config.dir w.site.clock.now k ∧
      w.site.disk.locate (logPath w.trail.config.dir w.site.clock.now k) = .ok l ∧ w.site.disk.node? l = none ∧
      rotate w = .ok () w' ∧
      w.Becomes (w.trail.begin (logPath w.trail.config.dir w.site.clock.now k) w.site.disk.nextSerial)
        (w.site.disk.create l fileMode) w') ∨
    (∃ e w', rotate w = .error e w' ∧ isLoss e = true ∧ (w.trail.config.dir.Nameable → e.isSystem = true) ∧
      w.Becomes w.trail.shut w.site.disk w') := by
  obtain ⟨w₁, h₁, hw₁⟩ := closeStream_exact w
  have b₂ := (((World.Becomes.refl w).setTrail w.trail.shut).trans hw₁.becomes).clock w₁.site.clock.next
  unfold rotate
  rw [bind_of_ok h₁, now_bind, get_bind, show w₁.site.clock.now = w.site.clock.now from congrArg Clock.now hw₁.clock]
  generalize { w₁ with site := { w₁.site with clock := w₁.site.clock.next } } = w₂ at b₂ ⊢
  have hd : w₂.site.disk = w.site.disk := b₂.disk
  have hc : w₂.trail.config = w.trail.config := by rw [b₂.trail, Trail.shut]
  rw [hc]
  rcases nextPath_cases w₂.site.disk w.trail.config.dir w.site.clock.now with
    ⟨k, hp, hfirst⟩ | ⟨e, hp, he, hdir⟩
  · have hfree := hfirst.free
    rw [hp, bind_of_ok (require_ok _ _)]
    generalize hq : logPath w.trail.config.dir w.site.clock.now k = p at hfree ⊢
    rcases openFile_cases hfree with ⟨l, w₃, hl, hn, h₃, b₃⟩ | ⟨e, w₃, h₃, he, b₃⟩
    · have ht : w₃.trail = w.trail.shut := b₃.trail.trans b₂.trail
      have hsize : ((w₃.site.disk.fileOf? w₂.site.disk.nextSerial).map (·.content.length)).getD 0 = 0 := by
        rw [b₃.disk, Disk.fileOf?_create_size]
      rw [bind_of_ok h₃, get_bind, hsize, modifyTrail_bind, bind_of_ok (note_eq _ _)]
      rw [hd] at hl hn b₃ ⊢
      obtain ⟨w₄, h₄, b₄⟩ := ((b₂.trans b₃).setTrail (w.trail.begin p w.site.disk.nextSerial)).report
        .info .audit "audit_log_rotated" [Value.field "file" (.text p.name)]
      rw [ht]
      exact Or.inl ⟨k, l, w₄, hd ▸ hfirst, hq ▸ hl, hn, h₄, hq ▸ b₄⟩
    · refine Or.inr ⟨e, w₃, bind_of_error h₃, ?_, ?_, ?_⟩
      · exact he.elim isLoss_of_system isLoss_of_refuses
      · intro hdir
        have hpath : p.Nameable := hq ▸ nameable_logPath hdir w.site.clock.now k
        exact he.elim id fun he => he.isSystem_iff.2 hpath
      · rw [b₂.trail, hd] at b₃
        exact b₂.trans b₃
  · rw [hp, bind_of_error (require_error _ _)]
    exact Or.inr ⟨e, w₂, rfl, isLoss_of_system he, fun _ => he, b₂⟩

theorem rotate_cases (w : World) :
    (∃ p l w', w.site.disk.locate p = .ok l ∧ w.site.disk.node? l = none ∧ rotate w = .ok () w' ∧
      w.Becomes (w.trail.begin p w.site.disk.nextSerial) (w.site.disk.create l fileMode) w') ∨
    (∃ e w', rotate w = .error e w' ∧ isLoss e = true ∧ (w.trail.config.dir.Nameable → e.isSystem = true) ∧
      w.Becomes w.trail.shut w.site.disk w') := by
  refine (rotate_exact w).imp_left ?_
  rintro ⟨k, l, w', -, hl, hn, h, hb⟩
  exact ⟨_, l, w', hl, hn, h, hb⟩

private theorem sameClock_openFile (p : Path) : (openFile p).Keeps World.SameClock := by
  refine .bind .get fun v => ?_
  split
  · exact World.sameClock_onDisk _
  · refine .bind ?_ fun _ => ?_
    · exact Keeps.modifySite fun w => rfl
    · split
      · exact .throw _
      · exact World.sameClock_onDisk _

/-- For the next file the clock is read once. -/
theorem clock_rotate (w : World) : (rotate.after w).site.clock = w.site.clock.next := by
  obtain ⟨w₁, h₁, hw₁⟩ := closeStream_exact w
  have hread : (rotate.after w).site.clock = w₁.site.clock.next := by
    unfold rotate
    rw [after_bind_of_ok h₁, after_now_bind]
    refine Keeps.bind (R := World.SameClock) .get (fun v => .bind (.require _) fun p => ?_) _
    refine .bind (sameClock_openFile p) fun serial => .bind .get fun u => .bind ?_ fun _ => .bind ?_ fun _ => ?_
    · exact Keeps.modifyTrail fun w => rfl
    · exact Keeps.modifyTrail fun w => rfl
    · exact Keeps.modifySite fun w => rfl
  rw [hread, hw₁.clock]

/-- A world comes to another if its trail and its disk get there step by step, and nothing else of it but
records, the clock and refusals differs. An entry may be on its way before and afterwards. -/
structure Comes (w : World) (h : Option Entry) (w' : World) (h' : Option Entry) : Prop where
  steps : (w.archive h).Steps (w'.archive h')
  secrets : w'.secrets = w.secrets

/-- Writing leads from a world to another: the phase and the timer stay. -/
structure Leads (w : World) (h : Option Entry) (w' : World) (h' : Option Entry) : Prop
    extends Comes w h w' h' where
  phase : w'.trail.phase = w.trail.phase
  timer : w'.trail.timer = w.trail.timer

section
variable {w' w'' : World} {h h' h'' : Option Entry}

theorem Comes.refl (w : World) (h : Option Entry) : Comes w h w h := ⟨.refl _, rfl⟩

theorem Comes.trans (hw : Comes w h w' h') (hw' : Comes w' h' w'' h'') : Comes w h w'' h'' where
  steps := hw.steps.trans hw'.steps
  secrets := hw'.secrets.trans hw.secrets

theorem Comes.of_becomes {t : Trail} {d : Disk} (hb : w.Becomes t d w') (steps : (w.archive h).Steps ⟨t, d, h'⟩) :
    Comes w h w' h' where
  steps := by
    rw [hb.archive]
    exact steps
  secrets := hb.secrets

theorem Leads.refl (w : World) (h : Option Entry) : Leads w h w h := ⟨.refl w h, rfl, rfl⟩

theorem Leads.trans (hw : Leads w h w' h') (hw' : Leads w' h' w'' h'') : Leads w h w'' h'' where
  toComes := hw.toComes.trans hw'.toComes
  phase := hw'.phase.trans hw.phase
  timer := hw'.timer.trans hw.timer

theorem Leads.of_becomes {t : Trail} {d : Disk} (hb : w.Becomes t d w') (steps : (w.archive h).Steps ⟨t, d, h'⟩)
    (phase : t.phase = w.trail.phase) (timer : t.timer = w.trail.timer) : Leads w h w' h' where
  toComes := .of_becomes hb steps
  phase := by rw [hb.trail, phase]
  timer := by rw [hb.trail, timer]

end

theorem discard_spec (e : Entry) (message : String) (w : World) :
    ∃ w', discard e message w = .ok () w' ∧ Leads w (some e) w' none ∧ w'.trail = w.trail.drop e := by
  unfold discard
  rw [modifyTrail_bind, bind_of_ok (note_eq _ _)]
  obtain ⟨w', h, hb⟩ := ((World.Becomes.refl w).setTrail (w.trail.drop e)).report .warning .audit message (wordsOf e)
  exact ⟨w', h, .of_becomes hb (Step.discarded e).steps rfl rfl, hb.trail⟩

/-- Whether the next line needs a new file can always be told, unless there is no limit to tell by. -/
theorem needsRotation_cases (n : Nat) (w : World) :
    (∃ f, w.trail.config.maxBytes = .error f ∧ w.trail.stream.isSome ∧ w.trail.current.isSome ∧
      needsRotation n w = .error f w) ∨
    (needsRotation n w = .ok true w ∧ (w.trail.stream = none ∨ w.trail.current = none ∨
      ∃ limit, w.trail.config.maxBytes = .ok limit)) ∨
    (needsRotation n w = .ok false w ∧ w.trail.stream.isSome ∧ w.trail.current.isSome) := by
  unfold needsRotation
  rw [get_bind]
  cases hs : w.trail.stream with
  | none => exact Or.inr (Or.inl ⟨rfl, Or.inl rfl⟩)
  | some s =>
    cases hc : w.trail.current with
    | none => exact Or.inr (Or.inl ⟨rfl, Or.inr (Or.inl rfl)⟩)
    | some file =>
      dsimp only
      cases hm : w.trail.config.maxBytes with
      | error f => exact Or.inl ⟨f, rfl, rfl, rfl, bind_of_error (require_error _ _)⟩
      | ok limit =>
        rw [bind_of_ok (require_ok _ _)]
        refine Or.inr ?_
        cases hb : decide (limit ≤ file.size) || decide (0 < file.size) && decide (limit < file.size + n) with
        | true => exact Or.inl ⟨rfl, Or.inr (Or.inr ⟨limit, rfl⟩)⟩
        | false => exact Or.inr ⟨rfl, rfl, rfl⟩

private theorem rotate_leads (h : Option Entry) (idle : w.trail.phase = .running → w.trail.stream = none ∨
      w.trail.current = none ∨ ∃ limit, w.trail.config.maxBytes = .ok limit) :
    (∃ p serial w', rotate w = .ok () w' ∧ Leads w h w' h ∧ w'.trail = w.trail.begin p serial) ∨
    (∃ e w', rotate w = .error e w' ∧ isLoss e = true ∧ Leads w h w' h ∧ w'.trail = w.trail.shut) := by
  have hclosed : (w.archive h).Steps ⟨w.trail.shut, w.site.disk, h⟩ := (Step.closed idle).steps
  rcases rotate_cases w with ⟨p, l, w', hl, hn, hr, hb⟩ | ⟨e, w', hr, he, -, hb⟩
  · have hopened := (Step.opened (t := w.trail.shut) (h := h) p l rfl hl hn).steps
    exact Or.inl ⟨p, _, w', hr, .of_becomes hb (hclosed.trans hopened) rfl rfl, hb.trail⟩
  · exact Or.inr ⟨e, w', hr, he, .of_becomes hb hclosed rfl rfl, hb.trail⟩

/-- A line goes to the open file whole. A file that has been closed behind the trail's back takes nothing. -/
theorem appendLine_cases {e : Entry} {line : Text} (hj : e.json = .ok line) (hp : w.trail.phase ≠ .stopped)
    {s : Stream} (hs : w.trail.stream = some s) :
    (∃ w', appendLine line (lineBytes line) w = .ok () w' ∧ Leads w (some e) w' none ∧
      w'.trail = w.trail.fill s.serial line) ∨
    (appendLine line (lineBytes line) w = .error .badValue w) := by
  unfold appendLine
  rw [get_bind, hs]
  dsimp only
  split
  · exact Or.inr (bind_of_error rfl)
  · rw [modifySite_bind, modifyTrail_bind]
    have hb := ((World.Becomes.refl w).setDisk (w.site.disk.append s.serial (lineBytes line))).setTrail
      (w.trail.fill s.serial line)
    exact Or.inl ⟨_, note_eq _ _, .of_becomes hb (Step.wrote e s line hj hs hp).steps rfl rfl, rfl⟩

/-- A line is written whole, or not at all. -/
theorem writeLine_cases {e : Entry} {line : Text} (hj : e.json = .ok line) (hp : w.trail.phase ≠ .stopped) :
    (∃ w', writeLine line w = .ok () w' ∧ Leads w (some e) w' none ∧ w'.trail.queue = w.trail.queue) ∨
    (∃ f w', writeLine line w = .error f w' ∧ Leads w (some e) w' (some e) ∧ w'.trail.queue = w.trail.queue ∧
      (isLoss f = true ∨ w.trail.config.maxBytes = .error f)) := by
  have append : ∀ {v : World} {s : Stream}, Leads w (some e) v (some e) → v.trail.queue = w.trail.queue →
      v.trail.stream = some s →
      (∃ w', appendLine line (lineBytes line) v = .ok () w' ∧ Leads w (some e) w' none ∧
        w'.trail.queue = w.trail.queue) ∨
      (∃ f w', appendLine line (lineBytes line) v = .error f w' ∧ Leads w (some e) w' (some e) ∧
        w'.trail.queue = w.trail.queue ∧ (isLoss f = true ∨ w.trail.config.maxBytes = .error f)) := by
    intro v s hv hq hs
    rcases appendLine_cases hj (hv.phase ▸ hp) hs with ⟨w', ha, hl, ht⟩ | ha
    · refine Or.inl ⟨w', ha, hv.trans hl, ?_⟩
      rw [ht]
      exact hq
    · exact Or.inr ⟨_, v, ha, hv, hq, Or.inl rfl⟩
  unfold writeLine
  rw [encode_json hj]
  dsimp only
  rcases needsRotation_cases (lineBytes line).length w with ⟨f, hm, hs, hc, hr⟩ | ⟨hr, idle⟩ | ⟨hr, hs, hc⟩
  · rw [bind_of_error hr]
    exact Or.inr ⟨f, w, rfl, .refl w _, rfl, Or.inr hm⟩
  · rw [bind_of_ok hr, if_pos rfl]
    rcases rotate_leads (some e) fun _ => idle with ⟨p, serial, w₁, h₁, hl, ht⟩ | ⟨f, w₁, h₁, hf, hl, ht⟩
    · rw [bind_of_ok h₁]
      exact append hl (by rw [ht]; rfl) (by rw [ht]; rfl)
    · rw [bind_of_error h₁]
      exact Or.inr ⟨f, w₁, rfl, hl, by rw [ht]; rfl, Or.inl hf⟩
  · rw [bind_of_ok hr, if_neg (by decide)]
    obtain ⟨s, hs⟩ := Option.isSome_iff_exists.1 hs
    exact append (.refl w _) rfl hs

/-- Every entry ends, as a line or as a loss, unless a failure goes further. -/
theorem writeEntry_cases (e : Entry) (w : World) :
    (∃ w', writeEntry e w = .ok () w' ∧ Leads w (some e) w' none ∧ w'.trail.queue = w.trail.queue) ∨
    (∃ f w', writeEntry e w = .error f w' ∧ Leads w (some e) w' none ∧ w'.trail.queue = w.trail.queue ∧
      isLoss f = false ∧ (e.json = .error f ∨ w.trail.config.maxBytes = .error f)) := by
  have discards : ∀ {v : World} (message : String), Leads w (some e) v (some e) →
      v.trail.queue = w.trail.queue → ∃ w', discard e message v = .ok () w' ∧ Leads w (some e) w' none ∧
        w'.trail.queue = w.trail.queue := by
    intro v message hv hq
    obtain ⟨w', hd, hl, ht⟩ := discard_spec e message v
    refine ⟨w', hd, hv.trans hl, ?_⟩
    rw [ht]
    exact hq
  unfold writeEntry
  rw [get_bind]
  split
  · exact Or.inl (discards _ (.refl w _) rfl)
  · next hp =>
    cases hj : e.json with
    | error f =>
      have hrun : (require (.error f) >>= fun line => writeLine line) w = .error f w :=
        bind_of_error (require_error _ _)
      by_cases hf : isLoss f = true
      · rw [orElse_of_sort hrun hf]
        exact Or.inl (discards _ (.refl w _) rfl)
      · rw [orElse_of_not_sort hrun (Bool.eq_false_iff.2 hf)]
        have hlost := (Step.lost (t := w.trail) (d := w.site.disk) e f (Bool.eq_false_iff.2 hf) (Or.inl hj)).steps
        exact Or.inr ⟨f, w, rfl, ⟨⟨hlost, rfl⟩, rfl, rfl⟩, rfl, Bool.eq_false_iff.2 hf, Or.inl rfl⟩
    | ok line =>
      rcases writeLine_cases hj hp with ⟨w₁, h₁, hl, hq⟩ | ⟨f, w₁, h₁, hl, hq, hf⟩
      · have hrun : (require (.ok line) >>= fun line => writeLine line) w = .ok () w₁ := by
          rw [bind_of_ok (require_ok _ _), h₁]
        rw [orElse_of_ok hrun]
        exact Or.inl ⟨w₁, rfl, hl, hq⟩
      · have hrun : (require (.ok line) >>= fun line => writeLine line) w = .error f w₁ := by
          rw [bind_of_ok (require_ok _ _), h₁]
        by_cases hloss : isLoss f = true
        · rw [orElse_of_sort hrun hloss]
          exact Or.inl (discards _ hl hq)
        · rw [orElse_of_not_sort hrun (Bool.eq_false_iff.2 hloss)]
          have hm : w.trail.config.maxBytes = .error f := hf.resolve_left hloss
          have hm₁ : w₁.trail.config.maxBytes = .error f := by
            have := hl.steps.config
            rw [show w₁.trail.config = w.trail.config from this, hm]
          have hlost := (Step.lost (t := w₁.trail) (d := w₁.site.disk) e f (Bool.eq_false_iff.2 hloss)
            (Or.inr hm₁)).steps
          exact Or.inr ⟨f, w₁, rfl, hl.trans ⟨⟨hlost, rfl⟩, rfl, rfl⟩, hq, Bool.eq_false_iff.2 hloss, Or.inr hm⟩

/-- The first entries of the queue end one after the other, unless a failure goes further. -/
theorem drain_cases (n : Nat) (w : World) :
    (∃ w', drain n w = .ok () w' ∧ Leads w none w' none ∧ w'.trail.queue = w.trail.queue.drop n) ∨
    (∃ f w', drain n w = .error f w' ∧ Leads w none w' none ∧ isLoss f = false ∧
      ∃ e ∈ w.trail.queue, e.json = .error f ∨ w.trail.config.maxBytes = .error f) := by
  induction n generalizing w with
  | zero => exact Or.inl ⟨w, rfl, .refl w _, rfl⟩
  | succ n ih =>
    unfold drain
    rw [get_bind]
    cases hq : w.trail.queue with
    | nil => exact Or.inl ⟨w, rfl, .refl w _, by rw [hq]; rfl⟩
    | cons e rest =>
      dsimp only
      rw [modifyTrail_bind]
      have htook : Leads w none { w with trail := { w.trail with queue := rest } } (some e) :=
        ⟨⟨(Step.took e rest hq).steps, rfl⟩, rfl, rfl⟩
      generalize hv : ({ w with trail := { w.trail with queue := rest } } : World) = v at htook ⊢
      have hvq : v.trail.queue = rest := by rw [← hv]
      have hconfig : v.trail.config = w.trail.config := htook.steps.config
      rcases writeEntry_cases e v with ⟨w₁, h₁, hl, hq₁⟩ | ⟨f, w₁, h₁, hl, -, hf, cause⟩
      · rw [bind_of_ok h₁]
        have hw₁ := htook.trans hl
        rcases ih w₁ with ⟨w', h', hl', hq'⟩ | ⟨f, w', h', hl', hf, cause⟩
        · refine Or.inl ⟨w', h', hw₁.trans hl', ?_⟩
          rw [hq', hq₁, hvq]
          rfl
        · refine Or.inr ⟨f, w', h', hw₁.trans hl', hf, ?_⟩
          rw [hq₁, hvq, show w₁.trail.config = w.trail.config from hw₁.steps.config] at cause
          obtain ⟨e', he', cause⟩ := cause
          exact ⟨e', List.mem_cons_of_mem _ he', cause⟩
      · rw [bind_of_error h₁]
        rw [hconfig] at cause
        exact Or.inr ⟨f, w₁, rfl, htook.trans hl, hf, e, List.mem_cons_self, cause⟩

/-- Afterwards nothing waits any more, unless a failure goes further. -/
theorem flush_cases (w : World) :
    (∃ w', flush w = .ok () w' ∧ Leads w none w' none ∧ w'.trail.queue = []) ∨
    (∃ f w', flush w = .error f w' ∧ Leads w none w' none ∧ isLoss f = false ∧
      ∃ e ∈ w.trail.queue, e.json = .error f ∨ w.trail.config.maxBytes = .error f) := by
  unfold flush
  rw [get_bind]
  rcases drain_cases w.trail.queue.length w with ⟨w₁, h₁, hl, hq⟩ | ⟨f, w₁, h₁, hl, hf, cause⟩
  · rw [bind_of_ok h₁, get_bind]
    rw [List.drop_length] at hq
    split
    · obtain ⟨w', h', hb⟩ := (World.Becomes.refl w₁).report .warning .audit "audit_flush_failed" []
      refine Or.inl ⟨w', h', hl.trans (.of_becomes hb (.refl _) rfl rfl), ?_⟩
      rw [hb.trail, hq]
    · exact Or.inl ⟨w₁, rfl, hl, hq⟩
  · rw [bind_of_error h₁]
    exact Or.inr ⟨f, w₁, rfl, hl, hf, cause⟩

theorem flush_of_empty (h : w.trail.queue = []) :
    ∃ w', flush w = .ok () w' ∧ Leads w none w' none ∧ w'.trail.queue = [] := by
  rcases flush_cases w with hok | ⟨f, w', -, -, -, e, he, -⟩
  · exact hok
  · rw [h] at he
    cases he

section Unlimited
-- A limit that is no number of bytes is asked for as soon as there is an open file.

private theorem needsRotation_error {f : Failure} (hm : w.trail.config.maxBytes = .error f)
    (hs : w.trail.stream.isSome)
    (hc : w.trail.current.isSome) (n : Nat) : needsRotation n w = .error f w := by
  obtain ⟨s, hs⟩ := Option.isSome_iff_exists.1 hs
  obtain ⟨file, hc⟩ := Option.isSome_iff_exists.1 hc
  unfold needsRotation
  rw [get_bind, hs, hc]
  dsimp only
  rw [hm]
  exact bind_of_error (require_error _ _)

private theorem writeEntry_overflow {e : Entry} {line : Text}
    (hm : w.trail.config.maxBytes = .error .overflow)
    (hs : w.trail.stream.isSome) (hc : w.trail.current.isSome) (hp : w.trail.phase ≠ .stopped)
    (hj : e.json = .ok line) : writeEntry e w = .error .overflow w := by
  have hline : writeLine line w = .error .overflow w := by
    unfold writeLine
    rw [encode_json hj]
    exact bind_of_error (needsRotation_error hm hs hc _)
  have hrun : (require e.json >>= fun line => writeLine line) w = .error .overflow w := by
    rw [hj, bind_of_ok (require_ok _ _), hline]
  unfold writeEntry
  rw [get_bind, if_neg hp, orElse_of_not_sort hrun rfl]

/-- An entry without a line is given up before anything is done to the files. -/
theorem writeEntry_unwritable {e : Entry} {f : Failure} (hp : w.trail.phase ≠ .stopped)
    (hj : e.json = .error f) (hf : isLoss f = true) :
    ∃ w', writeEntry e w = .ok () w' ∧ w'.trail = w.trail.drop e := by
  have hrun : (require e.json >>= fun line => writeLine line) w = .error f w := by
    rw [hj, bind_of_error (require_error _ _)]
  unfold writeEntry
  rw [get_bind, if_neg hp, orElse_of_sort hrun hf]
  obtain ⟨w', hd, -, ht⟩ := discard_spec e "audit_write_failed" w
  exact ⟨w', hd, ht⟩

/-- Without a limit the queue can be emptied just when nothing in it can be written. -/
theorem drain_returns_overflow (n : Nat) (hm : w.trail.config.maxBytes = .error .overflow)
    (hs : w.trail.stream.isSome) (hc : w.trail.current.isSome) (hp : w.trail.phase ≠ .stopped)
    (hd : ∀ e ∈ w.trail.queue, e.Dated) :
    (drain n).Returns w ↔ ∀ e ∈ w.trail.queue.take n, ∀ line, e.json ≠ .ok line := by
  induction n generalizing w with
  | zero => exact iff_of_true (returns_of_ok rfl) (by simp)
  | succ n ih =>
    cases hq : w.trail.queue with
    | nil =>
      have hnone : drain (n + 1) w = .ok () w := by
        rw [drain, get_bind, hq]
        rfl
      exact iff_of_true (returns_of_ok hnone) (by simp)
    | cons e rest =>
      generalize hv : ({ w with trail := { w.trail with queue := rest } } : World) = v
      have hrun : drain (n + 1) w = (writeEntry e >>= fun _ => drain n) v := by
        rw [drain, get_bind, hq, ← hv]
        exact modifyTrail_bind _ _ _
      have hm' : v.trail.config.maxBytes = .error .overflow := hv ▸ hm
      have hs' : v.trail.stream.isSome := hv ▸ hs
      have hc' : v.trail.current.isSome := hv ▸ hc
      have hp' : v.trail.phase ≠ .stopped := hv ▸ hp
      have hq' : v.trail.queue = rest := by rw [← hv]
      rw [List.take_succ_cons, List.forall_mem_cons]
      cases hj : e.json with
      | ok line =>
        have herror : drain (n + 1) w = .error .overflow v := by
          rw [hrun, bind_of_error (writeEntry_overflow hm' hs' hc' hp' hj)]
        exact iff_of_false (not_returns_of_error herror) fun h => h.1 line rfl
      | error f =>
        have hf : isLoss f = true := (hd e (hq ▸ List.mem_cons_self)).json_error hj
        obtain ⟨w', h', ht⟩ := writeEntry_unwritable hp' hj hf
        have hnext : drain (n + 1) w = drain n w' := by rw [hrun, bind_of_ok h']
        have hiff := ih (w := w') (by rw [ht]; exact hm') (by rw [ht]; exact hs') (by rw [ht]; exact hc')
          (by rw [ht]; exact hp') (by
            rw [ht, show (v.trail.drop e).queue = rest from hq']
            exact fun e' he' => hd e' (hq ▸ List.mem_cons_of_mem _ he'))
        rw [ht, show (v.trail.drop e).queue = rest from hq'] at hiff
        unfold Returns at hiff ⊢
        rw [hnext, hiff]
        exact ⟨fun h => ⟨nofun, h⟩, fun h => h.2⟩

end Unlimited

/-- Exactly when the queue can be emptied: there is a limit to tell by, or no number at all, or nothing that
can be written. -/
theorem flush_returns (hs : (∀ limit, w.trail.config.maxBytes ≠ .ok limit) → w.trail.stream.isSome ∧
      w.trail.current.isSome) (hp : w.trail.phase ≠ .stopped) (hd : ∀ e ∈ w.trail.queue, e.Dated) :
    flush.Returns w ↔ (w.trail.config.maxBytes = .error .overflow →
      ∀ e ∈ w.trail.queue, ∀ line, e.json ≠ .ok line) := by
  by_cases hm : w.trail.config.maxBytes = .error .overflow
  · obtain ⟨hs, hc⟩ := hs fun limit h => by rw [hm] at h; cases h
    have hiff := drain_returns_overflow w.trail.queue.length hm hs hc hp hd
    rw [List.take_length] at hiff
    refine Iff.trans ?_ (hiff.trans ⟨fun h _ => h, fun h => h hm⟩)
    constructor
    · rintro ⟨⟨⟩, w', h⟩
      unfold flush at h
      rw [get_bind] at h
      cases hdrain : drain w.trail.queue.length w with
      | ok x w₁ => exact returns_of_ok hdrain
      | error f w₁ =>
        rw [bind_of_error hdrain] at h
        cases h
    · rintro ⟨⟨⟩, w', h⟩
      rcases flush_cases w with ⟨w₁, h₁, -, -⟩ | ⟨f, w₁, h₁, -⟩
      · exact returns_of_ok h₁
      · unfold flush at h₁
        rw [get_bind, bind_of_ok h, get_bind] at h₁
        split at h₁ <;> cases h₁
  · refine iff_of_true ?_ fun h => absurd h hm
    rcases flush_cases w with ⟨w', h, -, -⟩ | ⟨f, w', h, -, hf, e, he, hj | hmax⟩
    · exact returns_of_ok h
    · rw [(hd e he).json_error hj] at hf
      cases hf
    · rcases maxBytes_error hmax with rfl | rfl
      · exact absurd hmax hm
      · cases hf

end Custody.Audit
