import Custody.Proofs.Audit.Routine
import Custody.Proofs.Audit.Runs

/-! What the calls of a trail do to a disk, move by move: something is written to the file that is open, or the next
file is opened where there is nothing yet. -/
namespace Custody

def Clock.Ticks : Clock → Clock → Prop := Relation.ReflTransGen fun c c' => c' = c.next

namespace Audit
open Act

/-- A file that a trail does not have open. -/
def Released (t : Trail) (f : File) : Prop := ∀ s, t.stream = some s → s.serial ≠ f.serial

/-- A trail has written to no file but the one that it has open, and it has made no file, and no directory but on the
way to its own. -/
structure Tends (t : Trail) (d d' : Disk) : Prop extends d.HasDirectories d' where
  nextSerial : d'.nextSerial = d.nextSerial
  kept : ∀ l f, d.node? l = some (.file f) →
    ∃ g, d'.node? l = some (.file g) ∧ g.serial = f.serial ∧ (Released t f → g = f)
  files : ∀ l g, d'.node? l = some (.file g) → ∃ f, d.node? l = some (.file f) ∧ f.serial = g.serial
  made : ∀ l, (∀ q, t.config.dir.LeadsOver q → d.place q ≠ l) → d.node? l = none → d'.node? l = none

theorem tends_refl (t : Trail) (d : Disk) : Tends t d d where
  cwd := rfl
  directory _ mode h := ⟨mode, h⟩
  nextSerial := rfl
  kept _ f h := ⟨f, h, rfl, fun _ => rfl⟩
  files _ g h := ⟨g, h, rfl⟩
  made _ _ h := h

theorem tends_of_prepares {t : Trail} {d d' : Disk} (h : d.Prepares d') (hp : Disk.Paves t.config.dir d d') :
    Tends t d d' where
  toHasDirectories := h.toHasDirectories
  nextSerial := h.nextSerial
  kept l f hf := ⟨f, (h.file l f).2 hf, rfl, fun _ => rfl⟩
  files l g hg := ⟨g, (h.file l g).1 hg, rfl⟩
  made := hp.made

theorem tends_append {t : Trail} {s : Stream} (hs : t.stream = some s) (d : Disk) (b : Bytes) :
    Tends t d (d.append s.serial b) where
  cwd := rfl
  directory l mode h := ⟨mode, by rw [Disk.node?_append, h]; rfl⟩
  nextSerial := rfl
  kept l f h := by
    rw [Disk.node?_append, h, Option.map_some, Node.edit]
    refine ⟨_, rfl, ?_, fun hr => if_neg (hr s hs).symm⟩
    split <;> rfl
  files l g h := by
    rw [Disk.node?_append, Option.map_eq_some_iff] at h
    obtain ⟨x, hx, h⟩ := h
    cases x with
    | directory mode => cases h
    | file f =>
      cases h
      refine ⟨f, hx, ?_⟩
      split <;> rfl
  made l _ h := by rw [Disk.node?_append, h]; rfl

/-- No file is opened: at most the one that is open gets longer, or is closed. -/
structure Writes (w w' : World) : Prop where
  config : w'.trail.config = w.trail.config
  clock : w.site.clock.Ticks w'.site.clock
  stream : w'.trail.stream = w.trail.stream ∨ w'.trail.stream = none
  history : ∃ more, w'.trail.history = w.trail.history ++ more ∧ ∀ p serial, .opened p serial ∉ more
  disk : Tends w.trail w.site.disk w'.site.disk

/-- A file is opened under the first name of an instant that is free, where there is nothing. -/
structure Opens (k : Nat) (l : Location) (w w' : World) : Prop where
  first : FirstFree w.site.disk w.trail.config.dir w.site.clock.now k
  place : w.site.disk.locate (logPath w.trail.config.dir w.site.clock.now k) = .ok l
  nothing : w.site.disk.node? l = none
  disk : w'.site.disk = w.site.disk.create l fileMode
  trail : w'.trail = w.trail.begin (logPath w.trail.config.dir w.site.clock.now k) w.site.disk.nextSerial
  clock : w'.site.clock = w.site.clock.next

/-- What was there stays there. -/
theorem Opens.node?_of_some {k : Nat} {l place : Location} {w w' : World} {x : Node} (h : Opens k place w w')
    (hx : w.site.disk.node? l = some x) : w'.site.disk.node? l = some x := by
  have hne : l ≠ place := by
    rintro rfl
    rw [h.nothing] at hx
    cases hx
  rw [h.disk, Disk.node?_create, if_neg hne, hx]

inductive Move (w w' : World) : Prop where
  | writes (h : Writes w w')
  | opens (k : Nat) (l : Location) (h : Opens k l w w')

def Moves : World → World → Prop := Relation.ReflTransGen Move

instance : IsPreorder World Moves where
  refl _ := Relation.ReflTransGen.refl
  trans _ _ _ := Relation.ReflTransGen.trans

theorem Writes.moves {w w' : World} (h : Writes w w') : Moves w w' := .single (.writes h)

section Acts
variable {w w' : World} {t : Trail} {d : Disk}

theorem writes_of_becomes (hb : w.Becomes t d w') (config : t.config = w.trail.config)
    (clock : w.site.clock.Ticks w'.site.clock) (stream : t.stream = w.trail.stream ∨ t.stream = none)
    (history : ∃ more, t.history = w.trail.history ++ more ∧ ∀ p serial, .opened p serial ∉ more)
    (disk : Tends w.trail w.site.disk d) : Writes w w' := by
  refine ⟨?_, clock, ?_, ?_, ?_⟩
  · rwa [hb.trail]
  · rwa [hb.trail]
  · rwa [hb.trail]
  · rwa [hb.disk]

/-- The journal stays, or a deed is added that opens no file. -/
theorem writes_setTrail (w : World) (config : t.config = w.trail.config)
    (stream : t.stream = w.trail.stream ∨ t.stream = none)
    (history : ∃ more, t.history = w.trail.history ++ more ∧ ∀ p serial, .opened p serial ∉ more) :
    Writes w { w with trail := t } :=
  writes_of_becomes ((World.Becomes.refl w).setTrail t) config .refl stream history (tends_refl _ _)

theorem same_history (h : t.journal = w.trail.journal) :
    ∃ more, t.history = w.trail.history ++ more ∧ ∀ p serial, .opened p serial ∉ more :=
  ⟨[], by rw [Trail.history, h, List.append_nil, Trail.history], fun _ _ => List.not_mem_nil⟩

theorem moves_now : now.Keeps Moves := by
  intro w
  refine (writes_of_becomes ((World.Becomes.refl w).clock w.site.clock.next) rfl ?_ (Or.inl rfl) (same_history rfl)
    (tends_refl _ _)).moves
  exact .single rfl

theorem moves_report (level : Level) (reporter : Reporter) (message : String) (fields : List (Text × Value)) :
    (report level reporter message fields).Keeps Moves := by
  intro w
  obtain ⟨w', h, hw⟩ := (World.Tidied.refl w).report level reporter message fields
  rw [after_of_ok h]
  refine (writes_of_becomes hw.becomes rfl ?_ (Or.inl rfl) (same_history rfl) (tends_refl _ _)).moves
  rw [hw.clock]
  exact .refl

theorem moves_adjust (f : Trail → Trail)
    (h : ∀ t, (f t).config = t.config ∧ (f t).stream = t.stream ∧ (f t).journal = t.journal) :
    (modifyTrail f).Keeps Moves := by
  intro w
  obtain ⟨hc, hs, hj⟩ := h w.trail
  exact (writes_setTrail w hc (Or.inl hs) (same_history hj)).moves

theorem moves_note {deed : Deed} (h : ∀ p serial, deed ≠ .opened p serial) : (note deed).Keeps Moves := by
  intro w
  have hnoted : Writes w { w with trail := { w.trail with journal := deed :: w.trail.journal } } := by
    refine writes_setTrail w rfl (Or.inl rfl) ⟨[deed], history_note rfl, fun p serial hm => ?_⟩
    exact h p serial (List.mem_singleton.1 hm).symm
  exact hnoted.moves

theorem moves_closeStream : closeStream.Keeps Moves := by
  intro w
  obtain ⟨w', h, hw⟩ := closeStream_exact w
  rw [after_of_ok h]
  have hb := ((World.Becomes.refl w).setTrail w.trail.shut).trans hw.becomes
  refine (writes_of_becomes hb rfl ?_ (Or.inr rfl) (same_history rfl) (tends_refl _ _)).moves
  rw [hw.clock]
  exact .refl

theorem moves_rotate : rotate.Keeps Moves := by
  intro w
  have hclock := clock_rotate w
  rcases rotate_exact w with ⟨k, l, w', hfirst, hl, hn, h, hb⟩ | ⟨e, w', h, -, -, hb⟩
  · rw [after_of_ok h] at hclock ⊢
    exact .single (.opens k l ⟨hfirst, hl, hn, hb.disk, hb.trail, hclock⟩)
  · rw [after_of_error h] at hclock ⊢
    exact (writes_of_becomes hb rfl (.single hclock) (Or.inr rfl) (same_history rfl) (tends_refl _ _)).moves

theorem moves_appendLine (line : Text) (bytes : Bytes) : (appendLine line bytes).Keeps Moves := by
  intro w
  have ends : ∀ f, appendLine line bytes w = .error f w → Moves w ((appendLine line bytes).after w) := by
    intro f h
    rw [after_of_error h]
    exact .refl
  cases hs : w.trail.stream with
  | none =>
    refine ends (.system .other) ?_
    rw [appendLine, get_bind, hs]
    rfl
  | some s =>
    by_cases closed : s.closed = true
    · refine ends .badValue ?_
      rw [appendLine, get_bind, hs]
      dsimp only
      rw [if_pos closed]
      rfl
    · obtain ⟨t, h, hc, hstream, hj⟩ : ∃ t : Trail, appendLine line bytes w =
          .ok () { w with trail := t, site := { w.site with disk := w.site.disk.append s.serial bytes } } ∧
          t.config = w.trail.config ∧ t.stream = w.trail.stream ∧
          t.journal = .wrote s.serial line :: w.trail.journal := by
        rw [appendLine, get_bind, hs]
        dsimp only
        rw [if_neg closed]
        exact ⟨_, rfl, rfl, hs.symm ▸ hs, rfl⟩
      rw [after_of_ok h]
      have hb := ((World.Becomes.refl w).setDisk (w.site.disk.append s.serial bytes)).setTrail t
      refine (writes_of_becomes hb hc .refl (Or.inl hstream) ⟨_, history_note hj, fun p serial hm => ?_⟩
        (tends_append hs _ _)).moves
      cases List.mem_singleton.1 hm

/-- The directory of a trail is made, and what leads to it. -/
theorem moves_prepareDirectory : prepareDirectory.Keeps Moves := by
  intro w
  have tended : ∀ {d : Disk}, w.site.disk.Prepares d → Disk.Paves w.trail.config.dir w.site.disk d →
      Moves w { w with site := { w.site with disk := d } } := by
    intro d hd hp
    exact (writes_of_becomes ((World.Becomes.refl w).setDisk d) rfl .refl (Or.inl rfl) (same_history rfl)
      (tends_of_prepares hd hp)).moves
  have hpaves := Disk.paves_makeDirectories directoryMode w.trail.config.dir w.site.disk
  have hrun : prepareDirectory.after w = (onDisk (Disk.makeDirectories directoryMode w.trail.config.dir) >>= fun _ =>
      onDisk (Disk.setMode directoryMode w.trail.config.dir)).after w := rfl
  rw [hrun]
  rcases Disk.makes_makeDirectories directoryMode w.trail.config.dir w.site.disk with
    ⟨l, mode, d, hd, hl, hn, h⟩ | ⟨e, d, hd, -, h⟩
  · have hplace : d.Prepares (d.placeDirectory l directoryMode) :=
      Disk.prepares_placeDirectory fun f hf => by rw [hn] at hf; cases hf
    have hmode : Disk.setMode directoryMode w.trail.config.dir d = .ok () (d.placeDirectory l directoryMode) :=
      Disk.setMode_directory hl hn
    have hrest := onDisk_ok (w := { w with site := { w.site with disk := d } }) hmode
    rw [after_bind_of_ok (onDisk_ok h), after_of_ok hrest]
    exact tended (hd.trans hplace) ((hpaves.1 d h).trans (.placeDirectory hl _))
  · rw [after_of_error (bind_of_error (onDisk_error h))]
    exact tended hd (hpaves.2 e d h)

theorem moves_enqueue (r : Report) : (enqueue r).Keeps Moves := by
  refine .bind moves_now fun now => .bind (.require _) fun e => .bind (moves_adjust _ ?_) fun _ => moves_note ?_
  · exact fun _ => ⟨rfl, rfl, rfl⟩
  · rintro p serial ⟨⟩

private theorem keptByService_moves : KeptByService Moves where
  report := moves_report
  adjust := moves_adjust
  discarded e := moves_note (by rintro p serial ⟨⟩)
  closeStream := moves_closeStream
  rotate := moves_rotate
  appendLine := moves_appendLine
  prepareDirectory := moves_prepareDirectory
  enqueue := moves_enqueue
  rejected := moves_note (by rintro p serial ⟨⟩)

end Acts

/-- Every call but a cleanup is made of moves. -/
theorem Call.moves {c : Call} (h : ∀ now, c ≠ .cleanup now) : c.act.Keeps Moves := by
  cases c with
  | start => exact keptByService_moves.start
  | log r => exact keptByService_moves.log r
  | enqueue r => exact moves_enqueue r
  | flush => exact keptByService_moves.flush
  | stop => exact keptByService_moves.stop
  | cleanup now => exact absurd rfl (h now)

end Audit

end Custody
