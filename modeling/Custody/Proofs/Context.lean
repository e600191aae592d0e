import Custody.Context
import Custody.Proofs.Audit.Lifecycle
import Custody.Proofs.Secrets.Lookup
import Custody.Proofs.Turns
import Mathlib.Data.List.Induction

/-! Secrets are loaded only while the audit trail runs, unless the services are opened again after their end. -/
namespace Custody.Context
open Act World
open Audit (Phase)

/-- What can be asked of the services of a process. The trail also does from time to time what it has to do. -/
inductive Call where
  | start
  | close
  | log (r : Audit.Report)
  | flush
  | cleanup (now : Option Timestamp)
  | get (key : Text)
  | demand (key : Text)
  | validate (keys : List Text)
  | masterKey
  | resolve (key : Text) (configured : Option Text)
  | decrypt (value key : Text)
  | encrypt (plain key : Text)

def Call.act : Call → Act Unit
  | start => Context.start
  | close => Context.close
  | log r => Audit.log r
  | flush => Audit.flush
  | cleanup now => do let _ ← Audit.cleanup now
  | get key => do let _ ← Secrets.get? key
  | demand key => do let _ ← Secrets.demand key
  | validate keys => Secrets.validate keys
  | masterKey => do let _ ← Secrets.masterKey
  | resolve key configured => do let _ ← Secrets.resolve key configured
  | decrypt value key => do let _ ← Secrets.decryptValue value key
  | encrypt plain key => do let _ ← Secrets.encryptValue plain key

/-- A trail stays in its phase, or it is opened. Without a name for its directory it gets no further. -/
def Opens (dir : Path) (p p' : Phase) : Prop :=
  p' = p ∨ p = .fresh ∧ (dir.Nameable ∧ p' = .running ∨ ¬dir.Nameable ∧ p' = .opening)

theorem Opens.trans {dir : Path} {p p' p'' : Phase} (h : Opens dir p p') (h' : Opens dir p' p'') :
    Opens dir p p'' := by
  rcases h with rfl | ⟨rfl, h⟩
  · exact h'
  · rcases h' with rfl | ⟨rfl, -⟩
    · exact Or.inr ⟨rfl, h⟩
    · rcases h with ⟨-, h⟩ | ⟨-, h⟩ <;> cases h

/-- A later world has the same secrets, and its trail may have been opened. -/
structure Stirs (w w' : World) : Prop where
  secrets : w'.secrets = w.secrets
  config : w'.trail.config = w.trail.config
  phase : Opens w.trail.config.dir w.trail.phase w'.trail.phase

instance : IsPreorder World Stirs where
  refl _ := ⟨rfl, rfl, Or.inl rfl⟩
  trans _ _ _ h h' := ⟨h'.secrets.trans h.secrets, h'.config.trans h.config, h.phase.trans (h.config ▸ h'.phase)⟩

variable {w w' : World}

theorem stirs_of_still (h : w.Still w') : Stirs w w' :=
  ⟨h.secrets, by rw [h.trail], Or.inl (by rw [h.trail])⟩

theorem stirs_of_comes (h : Audit.Comes w none w' none) (phase : w'.trail.phase = w.trail.phase) : Stirs w w' :=
  ⟨h.secrets, h.steps.config, Or.inl phase⟩

theorem stirs_start : Audit.start.Keeps Stirs := by
  intro w
  have hcomes := Audit.start_comes w
  refine ⟨hcomes.secrets, hcomes.steps.config, ?_⟩
  by_cases fresh : w.trail.phase = .fresh
  · have hends := Audit.start_spec fresh
    generalize hr : Audit.start w = r at hends
    cases hends with
    | unnameable e d w' hdir _ _ hb =>
      rw [after_of_error hr, hb.trail]
      exact Or.inr ⟨fresh, Or.inr ⟨hdir, rfl⟩⟩
    | refused t d w' _ _ _ hb ht =>
      rw [after_of_error hr, hb.trail]
      rcases ht with ⟨rfl, -⟩ | ⟨rfl, -⟩ <;> exact Or.inl rfl
    | unlimited p l d timer f w' hdir _ _ _ _ _ _ hb =>
      rw [after_of_error hr, hb.trail]
      exact Or.inr ⟨fresh, Or.inl ⟨hdir, rfl⟩⟩
    | opened p l d timer now limit w' hdir _ _ _ _ _ _ _ hb =>
      rw [after_of_ok hr, hb.trail]
      exact Or.inr ⟨fresh, Or.inl ⟨hdir, rfl⟩⟩
  · rw [after_of_ok (Audit.start_of_ne fresh)]
    exact Or.inl rfl

theorem stirs_log (r : Audit.Report) : (Audit.log r).Keeps Stirs := by
  have haccept : (Audit.accept r).Keeps Stirs := fun w =>
    stirs_of_comes (Audit.accept_leads r w).toComes (Audit.accept_leads r w).phase
  refine .bind .get fun w => ?_
  dsimp only
  split
  · exact .bind stirs_start fun _ => haccept
  · exact haccept

theorem stirs_flush : Audit.flush.Keeps Stirs := fun w =>
  stirs_of_comes (Audit.flush_leads w).toComes (Audit.flush_leads w).phase

theorem stirs_cleanup (now : Option Timestamp) : (Audit.cleanup now).Keeps Stirs := fun w =>
  stirs_of_comes (Audit.cleanup_spec now w).1 (by rw [(Audit.cleanup_spec now w).2])

/-- Whatever is asked, apart from an opening and a closing, no more happens. -/
theorem Call.stirs {c : Call} (hstart : c ≠ .start) (hclose : c ≠ .close) : c.act.Keeps Stirs := by
  have thenDone : ∀ {α : Type} {a : Act α}, a.Keeps Stirs → (do let _ ← a : Act Unit).Keeps Stirs :=
    fun ha => .bind ha fun _ => .pure _
  cases c with
  | start => exact absurd rfl hstart
  | close => exact absurd rfl hclose
  | log r => exact stirs_log r
  | flush => exact stirs_flush
  | cleanup now => exact thenDone (stirs_cleanup now)
  | get key => exact thenDone (Secrets.keeps_get? key)
  | demand key => exact thenDone (Secrets.keeps_demand key)
  | validate keys => exact Secrets.keeps_validate keys
  | masterKey => exact thenDone Secrets.keeps_masterKey
  | resolve key configured =>
    exact thenDone (Secrets.keeps_resolve (fun _ _ => stirs_log _)
      (fun level reporter message fields => (still_report level reporter message fields).mono stirs_of_still) configured)
  | decrypt value key => exact thenDone (Secrets.keeps_decryptValue (fun _ _ => stirs_log _) value)
  | encrypt plain key => exact thenDone (Secrets.keeps_encryptValue (fun _ _ => stirs_log _) plain)

/-- An opening ends with the secrets loaded and with the trail just opened, or as it was if it could not be opened
any more; or it fails, and no secrets are loaded by it. -/
theorem start_cases (w : World) :
    (∃ w', start w = .ok () w' ∧ w'.secrets.loaded = true ∧ w'.trail.config = w.trail.config ∧
      (w.trail.phase = .fresh ∧ w.trail.config.dir.Nameable ∧ w'.trail.phase = .running ∨
        w.trail.phase ≠ .fresh ∧ w'.trail.phase = w.trail.phase)) ∨
    (∃ f w', start w = .error f w' ∧ Stirs w w') := by
  have hopen := stirs_start w
  cases h : Audit.start w with
  | error f w₁ =>
    rw [after_of_error h] at hopen
    exact Or.inr ⟨f, w₁, bind_of_error h, hopen⟩
  | ok u w₁ =>
    rw [after_of_ok h] at hopen
    have hrun : start w = Secrets.load w₁ := bind_of_ok h
    rcases Secrets.load_cases w₁ with ⟨s, w', h', hs, ht, -, rfl⟩ | ⟨f, w', h', hstill⟩
    · refine Or.inl ⟨w', hrun.trans h', hs, ht ▸ hopen.config, ?_⟩
      rw [ht]
      by_cases fresh : w.trail.phase = .fresh
      · have hends := Audit.start_spec fresh
        rw [h] at hends
        cases hends with
        | opened p l d timer now limit _ hdir _ _ _ _ _ _ _ hb =>
          refine Or.inl ⟨fresh, hdir, ?_⟩
          rw [hb.trail]
          rfl
      · rw [Audit.start_of_ne fresh] at h
        cases h
        exact Or.inr ⟨fresh, rfl⟩
    · exact Or.inr ⟨f, w', hrun.trans h', trans_of Stirs hopen (stirs_of_still hstill)⟩

/-- A closing forgets the secrets and leaves the trail closed, however it ends. -/
theorem close_spec (w : World) : (close.after w).secrets.loaded = false ∧
    (close.after w).trail.config = w.trail.config ∧ (close.after w).trail.phase.Ended := by
  let v : World := { w with secrets := { w.secrets with snapshot := [], file := [], loaded := false } }
  have hrun : close.after w = Audit.stop.after v := rfl
  obtain ⟨hcomes, hended⟩ := Audit.stop_spec v
  rw [hrun, hcomes.secrets]
  exact ⟨rfl, hcomes.steps.config, hended⟩

/-- What a turn does: it is a closing, an opening that returns, or anything else. -/
inductive Taken (t : Turn Call) (w w' : World) : Prop where
  | closed (call : t.call = .close) (loaded : w'.secrets.loaded = false) (config : w'.trail.config = w.trail.config)
      (ended : w'.trail.phase.Ended)
  | started (call : t.call = .start) (returns : start.Returns (t.before w)) (config : w'.trail.config = w.trail.config)
      (phase : w.trail.phase = .fresh ∧ w.trail.config.dir.Nameable ∧ w'.trail.phase = .running ∨
        w.trail.phase ≠ .fresh ∧ w'.trail.phase = w.trail.phase)
  | stirred (call : t.call ≠ .close) (fails : t.call = .start → ¬start.Returns (t.before w)) (stirs : Stirs w w')

theorem taken (t : Turn Call) (w : World) : Taken t w (t.take Call.act w) := by
  have hrun : t.take Call.act w = t.call.act.after (t.before w) := rfl
  by_cases hclose : t.call = .close
  · rw [hrun, hclose]
    obtain ⟨hloaded, hconfig, hended⟩ := close_spec (t.before w)
    exact .closed hclose hloaded hconfig hended
  · by_cases hstart : t.call = .start
    · rw [hrun, hstart]
      rcases start_cases (t.before w) with ⟨w', h, -, hconfig, hphase⟩ | ⟨f, w', h, hstirs⟩
      · rw [show (Call.act .start).after (t.before w) = w' from after_of_ok h]
        exact .started hstart (returns_of_ok h) hconfig hphase
      · rw [show (Call.act .start).after (t.before w) = w' from after_of_error h]
        exact .stirred hclose (fun _ => not_returns_of_error h) ⟨hstirs.secrets, hstirs.config, hstirs.phase⟩
    · have hstirs := Call.stirs hstart hclose (t.before w)
      exact .stirred hclose (fun h => absurd h hstart) ⟨hstirs.secrets, hstirs.config, hstirs.phase⟩

theorem Taken.config {t : Turn Call} (h : Taken t w w') : w'.trail.config = w.trail.config := by
  cases h with
  | closed _ _ config _ => exact config
  | started _ _ config _ => exact config
  | stirred _ _ stirs => exact stirs.config

theorem Taken.opens {t : Turn Call} (h : Taken t w w') (call : t.call ≠ .close) :
    Opens w.trail.config.dir w.trail.phase w'.trail.phase := by
  cases h with
  | closed hclose => exact absurd hclose call
  | started _ _ _ hphase =>
    rcases hphase with ⟨fresh, hdir, hphase⟩ | ⟨-, hphase⟩
    · exact Or.inr ⟨fresh, Or.inl ⟨hdir, hphase⟩⟩
    · exact Or.inl hphase
  | stirred _ _ hstirs => exact hstirs.phase

theorem Taken.ended {t : Turn Call} (h : Taken t w w') (ended : w.trail.phase.Ended) : w'.trail.phase.Ended := by
  by_cases hclose : t.call = .close
  · cases h with
    | closed _ _ _ hended => exact hended
    | started hstart => rw [hclose] at hstart; cases hstart
    | stirred hnot => exact absurd hclose hnot
  · rcases h.opens hclose with h | ⟨fresh, -⟩
    · rwa [h]
    · rw [fresh] at ended
      rcases ended with h | h <;> cases h

section Runs
variable {site : Site} {s : Config.Settings}

theorem run_config (turns : List (Turn Call)) : (run Call.act turns (ofSettings site s)).trail.config = s.audit :=
  run_induction (P := fun w => w.trail.config = s.audit) Call.act (fun t _ w h => (taken t w).config.trans h) rfl

/-- Before the first closing a trail is fresh, or has been opened. -/
theorem run_opens {turns : List (Turn Call)} (hturns : ∀ t ∈ turns, t.call ≠ .close) :
    Opens s.audit.dir .fresh (run Call.act turns (ofSettings site s)).trail.phase := by
  have hrun : (run Call.act turns (ofSettings site s)).trail.config = s.audit ∧
      Opens s.audit.dir .fresh (run Call.act turns (ofSettings site s)).trail.phase := by
    refine run_induction (P := fun w => w.trail.config = s.audit ∧ Opens s.audit.dir .fresh w.trail.phase)
      Call.act (fun t ht w h => ?_) ⟨rfl, Or.inl rfl⟩
    have hopens := (taken t w).opens (hturns t ht)
    rw [h.1] at hopens
    exact ⟨(taken t w).config.trans h.1, h.2.trans hopens⟩
  exact hrun.2

/-- After a closing a trail is closed for ever. -/
theorem run_ended {turns : List (Turn Call)} {t : Turn Call} (ht : t ∈ turns) (call : t.call = .close) (w : World) :
    (run Call.act turns w).trail.phase.Ended := by
  obtain ⟨before, later, rfl⟩ := List.append_of_mem ht
  rw [run_append]
  change (run Call.act later (t.take Call.act (run Call.act before w))).trail.phase.Ended
  refine run_induction (P := fun w => w.trail.phase.Ended) Call.act (fun u _ w h => (taken u w).ended h) ?_
  cases taken t (run Call.act before w) with
  | closed _ _ _ hended => exact hended
  | started hstart => rw [call] at hstart; cases hstart
  | stirred hnot => exact absurd call hnot

theorem run_concat (done : List (Turn Call)) (t : Turn Call) (w : World) :
    run Call.act (done ++ [t]) w = t.take Call.act (run Call.act done w) := run_append Call.act done [t] w

/-- An opening that returns leaves the trail running just when no closing came before it and the directory of the
trail has a name. -/
theorem running_iff {done : List (Turn Call)} {t : Turn Call} (call : t.call = .start)
    (returns : start.Returns (t.before (run Call.act done (ofSettings site s)))) :
    (run Call.act (done ++ [t]) (ofSettings site s)).trail.phase = .running ↔
      s.audit.dir.Nameable ∧ ∀ u ∈ done, u.call ≠ .close := by
  have hconfig : (run Call.act done (ofSettings site s)).trail.config = s.audit := run_config done
  have hopened : (∀ u ∈ done, u.call ≠ .close) →
      Opens s.audit.dir .fresh (run Call.act done (ofSettings site s)).trail.phase := run_opens
  rw [run_concat]
  cases taken t (run Call.act done (ofSettings site s)) with
  | closed hclose => rw [call] at hclose; cases hclose
  | stirred _ fails => exact absurd returns (fails call)
  | started _ _ _ hphase =>
    rw [hconfig] at hphase
    constructor
    · intro hrunning
      have hbefore : (run Call.act done (ofSettings site s)).trail.phase = .fresh ∧ s.audit.dir.Nameable ∨
          (run Call.act done (ofSettings site s)).trail.phase = .running := by
        rcases hphase with ⟨fresh, hdir, -⟩ | ⟨-, hphase⟩
        · exact Or.inl ⟨fresh, hdir⟩
        · exact Or.inr (hphase.symm.trans hrunning)
      have hopen : ∀ u ∈ done, u.call ≠ .close := by
        intro u hu hclose
        have hended := run_ended hu hclose (ofSettings site s)
        rcases hbefore with ⟨hp, -⟩ | hp <;> rcases hended with h | h <;> rw [hp] at h <;> cases h
      refine ⟨?_, hopen⟩
      rcases hbefore with ⟨-, hdir⟩ | hp
      · exact hdir
      · rcases hopened hopen with h | ⟨-, ⟨hdir, -⟩ | ⟨-, h⟩⟩
        · rw [hp] at h
          cases h
        · exact hdir
        · rw [hp] at h
          cases h
    · rintro ⟨hdir, hopen⟩
      rcases hphase with ⟨-, -, hphase⟩ | ⟨hfresh, hphase⟩
      · exact hphase
      · rcases hopened hopen with h | ⟨-, ⟨-, h⟩ | ⟨hnot, -⟩⟩
        · exact absurd h hfresh
        · exact hphase.trans h
        · exact absurd hdir hnot

/-- No privileged work without an audit trail: at every point of a run an opening that has returned has left the
trail running, and secrets are loaded only while it runs. -/
structure Guarded (turns : List (Turn Call)) (w : World) : Prop where
  started : ∀ done t, done ++ [t] <+: turns → t.call = .start →
    start.Returns (t.before (run Call.act done w)) → (run Call.act (done ++ [t]) w).trail.phase = .running
  loaded : ∀ done, done <+: turns → (run Call.act done w).secrets.loaded = true →
    (run Call.act done w).trail.phase = .running

/-- Only an opening loads secrets, and only a closing ends a trail. -/
theorem guarded_of_started {turns : List (Turn Call)}
    (started : ∀ done t, done ++ [t] <+: turns → t.call = .start →
      start.Returns (t.before (run Call.act done (ofSettings site s))) →
        (run Call.act (done ++ [t]) (ofSettings site s)).trail.phase = .running) :
    Guarded turns (ofSettings site s) := by
  refine ⟨started, ?_⟩
  intro done hdone
  induction done using List.reverseRecOn with
  | nil =>
    intro hloaded
    cases hloaded
  | append_singleton done t ih =>
    have hbefore := ih ((List.prefix_append done [t]).trans hdone)
    intro hloaded
    rw [run_concat] at hloaded
    cases taken t (run Call.act done (ofSettings site s)) with
    | closed _ hforgot =>
      rw [hforgot] at hloaded
      cases hloaded
    | started call returns => exact started done t hdone call returns
    | stirred _ _ stirs =>
      rw [stirs.secrets] at hloaded
      rw [run_concat]
      rcases stirs.phase with hsame | ⟨fresh, -⟩
      · exact hsame.trans (hbefore hloaded)
      · rw [hbefore hloaded] at fresh
        cases fresh

/-- Secrets are guarded just when no opening returns after a closing, nor where the directory of the trail has
no name. -/
theorem guarded_iff (turns : List (Turn Call)) :
    Guarded turns (ofSettings site s) ↔ ∀ done t, done ++ [t] <+: turns → t.call = .start →
      start.Returns (t.before (run Call.act done (ofSettings site s))) →
        s.audit.dir.Nameable ∧ ∀ u ∈ done, u.call ≠ .close := by
  constructor
  · intro h done t ht call returns
    exact (running_iff call returns).1 (h.started done t ht call returns)
  · intro h
    exact guarded_of_started fun done t ht call returns =>
      (running_iff call returns).2 (h done t ht call returns)

end Runs

/-- Opened again after it was closed, a process loads its secrets though nothing is audited any more. -/
theorem not_guarded_of_reopening :
    let turns : List (Turn Call) := [⟨id, .start⟩, ⟨id, .close⟩, ⟨id, .start⟩]
    let w := ofSettings bareSite {}
    let v := run Call.act turns w
    ¬Guarded turns w ∧ start.Returns (run Call.act (turns.take 2) w) ∧ v.secrets.loaded = true ∧
      v.trail.phase = .stopped := by
  intro turns w v
  have hloaded : v.secrets.loaded = true := by decide +kernel
  have hphase : v.trail.phase = .stopped := by decide +kernel
  refine ⟨?_, by decide +kernel, hloaded, hphase⟩
  intro h
  have hrunning := h.loaded turns (List.prefix_refl turns) hloaded
  rw [show (run Call.act turns w).trail.phase = .stopped from hphase] at hrunning
  cases hrunning

end Custody.Context
