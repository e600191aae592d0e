import Custody.Proofs.Audit.Moves
import Custody.Proofs.Audit.Retention

/-! Old evidence: a file that a trail does not have open is never written to. At most a cleanup takes it away. -/
namespace Custody.Audit
open Act

variable {w w' : World} {l : Location} {f : File}

/-- There is a file at a place, and the trail does not have it open. -/
structure Lies (w : World) (l : Location) (f : File) : Prop where
  there : w.site.disk.node? l = some (.file f)
  released : Released w.trail f

/-- A move leaves alone what is not open; a file that is opened is none of those that were there. -/
theorem Lies.move (h : Lies w l f) (hm : Move w w') : Lies w' l f := by
  cases hm with
  | writes hw =>
    obtain ⟨g, hg, -, hsame⟩ := hw.disk.kept l f h.there
    refine ⟨by rw [hg, hsame h.released], fun s hs => ?_⟩
    rcases hw.stream with hstream | hstream
    · exact h.released s (hstream ▸ hs)
    · rw [hstream] at hs
      cases hs
  | opens k place ho =>
    refine ⟨ho.node?_of_some h.there, fun s hs => ?_⟩
    rw [ho.trail] at hs
    cases hs
    exact Nat.ne_of_gt (Disk.serial_lt h.there)

theorem Lies.moves (h : Lies w l f) (hm : Moves w w') : Lies w' l f := by
  induction hm with
  | refl => exact h
  | tail _ hmove ih => exact ih.move hmove

/-- A cleanup takes some files of the trail away, gives their paths, and leaves the trail and everything else alone. -/
structure CleansUp (now : Option Timestamp) (gone : List Text) (w w' : World) : Prop where
  sheds : Sheds w.site.disk w.trail.config.dir gone w'.site.disk
  trail : w'.trail = w.trail
  told : ∀ n ∈ gone, ∃ ps, (cleanup now).result w = .ok ps ∧ w.trail.config.dir.child n ∈ ps

private theorem cleansUp_of_same {now : Option Timestamp} (htrail : w'.trail = w.trail)
    (hdisk : w'.site.disk = w.site.disk) :
    CleansUp now [] w w' := by
  refine ⟨?_, htrail, fun n hn => absurd hn List.not_mem_nil⟩
  rw [hdisk]
  exact .refl _ _

private theorem cleanup_cleansUp (now : Option Timestamp) (w : World) :
    ∃ gone, CleansUp now gone w ((cleanup now).after w) := by
  have htrail := (cleanup_spec now w).2
  rcases cleanup_eq now w with ⟨m, v, -, hrun, hv⟩ | ⟨e, -, hrun⟩
  · rcases cleanupFrom_cases m v with ⟨cutoff, -, -, hc, -⟩ | ⟨e, -, h⟩
    · rcases cleanupFrom_exact hc with ⟨-, gone, d, w', -, h, -, -, -, hw, hd⟩ | ⟨e, w', -, h, hw⟩
      · rw [hv.trail] at h hd
        rw [hv.disk, ← hw.disk] at hd
        have hgives := result_of_ok (hrun.trans h)
        rw [after_of_ok (hrun.trans h)] at htrail ⊢
        exact ⟨gone, hd, htrail, fun n hn => ⟨_, hgives, List.mem_map_of_mem hn⟩⟩
      · rw [after_of_ok (hrun.trans h)] at htrail ⊢
        exact ⟨[], cleansUp_of_same htrail (hw.disk.trans hv.disk)⟩
    · rw [after_of_error (hrun.trans h)] at htrail ⊢
      exact ⟨[], cleansUp_of_same htrail hv.disk⟩
  · rw [after_of_error hrun]
    exact ⟨[], cleansUp_of_same rfl rfl⟩

/-- Every call is made of moves, or it is a cleanup. -/
theorem Call.moves_or_cleansUp (c : Call) (w : World) :
    Moves w (c.act.after w) ∨ ∃ now gone, c = .cleanup now ∧ CleansUp now gone w (c.act.after w) := by
  by_cases h : ∃ now, c = .cleanup now
  · obtain ⟨now, rfl⟩ := h
    obtain ⟨gone, hgone⟩ := cleanup_cleansUp now w
    have hafter : (act (.cleanup now)).after w = (Audit.cleanup now).after w := after_forget _ w
    rw [hafter]
    exact Or.inr ⟨now, gone, rfl, hgone⟩
  · exact Or.inl (Call.moves (fun now hc => h ⟨now, hc⟩) w)

/-- A turn takes away what is at a place: it is a cleanup, and it gives the path that leads there. -/
def Sweeps (t : Turn Call) (w : World) (l : Location) : Prop :=
  ∃ now ps p, t.call = .cleanup now ∧ (cleanup now).result (t.before w) = .ok ps ∧ p ∈ ps ∧
    w.site.disk.locate p = .ok l

theorem Lies.turn {t : Turn Call} (spares : t.Spares) (h : Lies w l f) :
    Lies (t.take Call.act w) l f ∨ Sweeps t w l := by
  have hbefore : Lies (t.before w) l f := ⟨by rw [Turn.before, spares, h.there], h.released⟩
  rcases t.call.moves_or_cleansUp (t.before w) with hmoves | ⟨now, gone, hcall, hclean⟩
  · exact Or.inl (hbefore.moves hmoves)
  · by_cases hgone : ∃ n ∈ gone, w.site.disk.locate (w.trail.config.dir.child n) = .ok l
    · obtain ⟨n, hn, hl⟩ := hgone
      obtain ⟨ps, hps, hmem⟩ := hclean.told n hn
      exact Or.inr ⟨now, ps, _, hcall, hps, hmem, hl⟩
    · refine Or.inl ⟨?_, ?_⟩
      · rw [Turn.take, hclean.sheds.kept l, hbefore.there]
        rintro n hn hl
        rw [Turn.before, spares] at hl
        exact hgone ⟨n, hn, hl⟩
      · rw [Turn.take, hclean.trail]
        exact hbefore.released

/-- Through a run a file stays as it is until a cleanup takes it away. -/
theorem Lies.run {turns : List (Turn Call)} (spares : ∀ t ∈ turns, t.Spares) (h : Lies w l f) :
    Lies (run Call.act turns w) l f ∨ ∃ before t after, turns = before ++ t :: after ∧
      Lies (run Call.act before w) l f ∧ Sweeps t (run Call.act before w) l := by
  induction turns generalizing w with
  | nil => exact Or.inl h
  | cons t rest ih =>
    have hrest : ∀ u ∈ rest, u.Spares := fun u hu => spares u (List.mem_cons_of_mem t hu)
    rcases h.turn (spares t List.mem_cons_self) with hstays | hswept
    · rcases ih hrest hstays with hstays | ⟨before, u, after, rfl, hlies, hu⟩
      · exact Or.inl hstays
      · exact Or.inr ⟨t :: before, u, after, rfl, hlies, hu⟩
    · exact Or.inr ⟨[], t, rest, rfl, h, hswept⟩

/-- Old evidence is never written to, whatever was in the directory before the trail, whatever the clock shows and
whatever is asked of the trail, as long as others leave the disk alone. Each call is made of moves, which open a file
under the first name of an instant that is free and where there is nothing, or it is a cleanup, which only takes files
away. The search for that name ends in every directory. And whatever the trail does not have open at some time, be it
from before the trail or a file that it has turned away from, stays as it is until a cleanup takes it away. -/
theorem evidence_is_never_written (c : Config.AuditSettings) (waits : Bool) (site : Site) (secrets : Secrets.Resolver)
    (first : List (Turn Call)) {later : List (Turn Call)} (spares : ∀ t ∈ later, t.Spares) :
    let v := run Call.act first (unused c waits site secrets)
    (∀ (call : Call) (w : World), Moves w (call.act.after w) ∨
      ∃ now gone, call = .cleanup now ∧ CleansUp now gone w (call.act.after w)) ∧
    (∀ (d : Disk) (dir : Path) (now : Moment),
      (∃ k, nextPath d dir now = .ok (logPath dir now k) ∧ FirstFree d dir now k) ∨
      (∃ k e, nextPath d dir now = .error e ∧ d.pathExists (logPath dir now k) = .error e ∧
        ∀ j < k, d.pathExists (logPath dir now j) = .ok true)) ∧
    ∀ l f, v.site.disk.node? l = some (.file f) → Released v.trail f →
      Lies (run Call.act later v) l f ∨ ∃ before t after, later = before ++ t :: after ∧
        Lies (run Call.act before v) l f ∧ Sweeps t (run Call.act before v) l := by
  intro v
  exact ⟨Call.moves_or_cleansUp, nextPath_spec, fun l f hf hr => Lies.run spares ⟨hf, hr⟩⟩

/-- Under a clock that stands still, a foreign file has the name that the trail would use first. -/
theorem evidence_of_foreign_file :
    let name : Text := "audit_1-01-01_000000_000000.log"
    let d := (Disk.empty "work" 0).placeDirectory ["work", "audit"] directoryMode |>.create ["work", "audit", name] fileMode
    let report : Report := .authentication (.text "ada") (.bool true) (.text "")
    let turns : List (Turn Call) := [⟨id, .log report⟩, ⟨id, .flush⟩, ⟨id, .stop⟩]
    let w := run Call.act turns
      (unused { dir := .ofText "audit" } true { bareSite with disk := d.append 0 [1, 2, 3] } { config := {} })
    (∀ t ∈ turns, t.Spares) ∧ Lies w ["work", "audit", name] ⟨0, [1, 2, 3], 0, fileMode⟩ ∧
      w.trail.currentName = some "audit_1-01-01_000000_000000_1.log" := by
  intro name d report turns w
  have spares : ∀ t ∈ turns, t.Spares := by
    simp only [turns, List.forall_mem_cons]
    exact ⟨fun _ => rfl, fun _ => rfl, fun _ => rfl, fun _ h => absurd h List.not_mem_nil⟩
  refine ⟨spares, ?_, by decide +kernel⟩
  obtain ⟨-, -, hstays⟩ := evidence_is_never_written { dir := .ofText "audit" } true
    { bareSite with disk := d.append 0 [1, 2, 3] } { config := {} } [] spares
  rcases hstays ["work", "audit", name] ⟨0, [1, 2, 3], 0, fileMode⟩ (by decide +kernel) (by rintro s ⟨⟩) with
    hlies | ⟨before, t, after, hturns, -, now, -, -, hcall, -⟩
  · exact hlies
  · have ht : t ∈ turns := by rw [hturns]; exact List.mem_append_right _ List.mem_cons_self
    simp only [turns, List.mem_cons, List.not_mem_nil, or_false] at ht
    rcases ht with rfl | rfl | rfl <;> cases hcall

end Custody.Audit
