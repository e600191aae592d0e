import Custody.Proofs.Audit.Packing
import Custody.Proofs.Audit.Writing

/-! How the files of a trail fill: a line goes where there is room for it, or it begins the next file. -/
namespace Custody.Audit
open Act Archive

/-- The lines of each file, in the order in which the files were opened. -/
def filesIn (h : List Deed) : List (List Text) := (openedIn h).map (linesTo · h)

section Views
variable {h : List Deed}

/-- A deed that neither opens a file nor writes a line. -/
structure Deed.Silent (d : Deed) : Prop where
  opened : openedIn [d] = []
  lines : linesIn [d] = []
  linesTo : ∀ serial, linesTo serial [d] = []

theorem opened_ne_nil {s : Files} (files : filesIn h = s.all) : openedIn h ≠ [] := by
  intro hnil
  rw [filesIn, hnil] at files
  exact absurd files.symm (List.append_ne_nil_of_right_ne_nil _ (List.cons_ne_nil _ _))

theorem filesIn_opened {serial : Nat} (fresh : linesTo serial h = []) (p : Path) :
    filesIn (h ++ [.opened p serial]) = filesIn h ++ [[]] := by
  have hlines : ∀ s, linesTo s (h ++ [.opened p serial]) = linesTo s h := fun s => by
    rw [linesTo_concat]
    exact List.append_nil _
  unfold filesIn
  simp only [hlines]
  rw [openedIn_concat, List.map_append]
  exact congrArg (_ ++ ·) (congrArg (fun l => [l]) fresh)

private theorem linesTo_wrote (s serial : Nat) (line : Text) :
    linesTo s [.wrote serial line] = if serial = s then [line] else [] := by
  unfold linesTo
  split_ifs with hs <;> simp [hs]

/-- A line goes to the end of the file opened last. -/
theorem filesIn_wrote {serial : Nat} {full : List (List Text)} {current : List Text}
    (sorted : (openedIn h).Pairwise (· < ·)) (last : (openedIn h).getLast? = some serial)
    (files : filesIn h = full ++ [current]) (line : Text) :
    filesIn (h ++ [.wrote serial line]) = full ++ [current ++ [line]] := by
  obtain ⟨before, hbefore⟩ := List.getLast?_eq_some_iff.1 last
  have hopened : openedIn (h ++ [.wrote serial line]) = openedIn h := by
    rw [openedIn_concat]
    exact List.append_nil _
  rw [filesIn, hbefore, List.map_append] at files
  obtain ⟨hfull, hcurrent⟩ := List.append_inj' files rfl
  have hbefores : before.map (linesTo · (h ++ [.wrote serial line])) = full := by
    rw [← hfull]
    refine List.map_congr_left fun s hs => ?_
    rw [hbefore] at sorted
    have hlt : s < serial := (List.pairwise_append.1 sorted).2.2 s hs serial (List.mem_singleton.2 rfl)
    rw [linesTo_concat, linesTo_wrote, if_neg (Nat.ne_of_gt hlt), List.append_nil]
  have hlast : linesTo serial (h ++ [.wrote serial line]) = current ++ [line] := by
    rw [linesTo_concat, linesTo_wrote, if_pos rfl]
    exact congrArg (· ++ [line]) (List.singleton_inj.1 hcurrent)
  rw [filesIn, hopened, hbefore, List.map_append, hbefores, List.map_singleton, hlast]

end Views

section Writing
variable {w : World} {limit : Nat} {e : Entry} {line : Text}

private theorem maxBytes_pos {c : Config.AuditSettings} (h : c.maxBytes = .ok limit) : 1 ≤ limit := by
  unfold Config.AuditSettings.maxBytes Config.mebibytes at h
  dsimp only at h
  split at h
  · split at h <;> cases h
  split at h
  · cases h
  split at h
  · cases h
    exact Nat.le_refl 1
  split at h
  · cases h
    exact Nat.le_max_left _ _
  · cases h
    exact Nat.le_max_left _ _

/-- A line needs a new file just when the current file holds something and the line does not fit. -/
theorem needsRotation_eq {s : Stream} {file : LogFile} {incoming : Nat} (hm : w.trail.config.maxBytes = .ok limit)
    (hs : w.trail.stream = some s) (hc : w.trail.current = some file) (hi : 0 < incoming) :
    needsRotation incoming w = .ok (decide (0 < file.size ∧ limit < file.size + incoming)) w := by
  have hpos := maxBytes_pos hm
  have hrule : (decide (limit ≤ file.size) || decide (0 < file.size) && decide (limit < file.size + incoming)) =
      decide (0 < file.size ∧ limit < file.size + incoming) := by
    rw [Bool.eq_iff_iff]
    simp only [Bool.or_eq_true, Bool.and_eq_true, decide_eq_true_eq]
    omega
  unfold needsRotation
  rw [get_bind, hs, hc]
  dsimp only
  rw [hm, bind_of_ok (require_ok _ _), hrule]
  rfl

theorem needsRotation_of_none (hs : w.trail.stream = none) (incoming : Nat) :
    needsRotation incoming w = .ok true w := by
  unfold needsRotation
  rw [get_bind, hs]
  rfl

theorem appendLine_open {serial : Nat} (hs : w.trail.stream = some ⟨serial, false⟩) (line : Text) :
    ∃ w', appendLine line (lineBytes line) w = .ok () w' ∧
      w.Becomes (w.trail.fill serial line) (w.site.disk.append serial (lineBytes line)) w' := by
  have hb := ((World.Becomes.refl w).setDisk (w.site.disk.append serial (lineBytes line))).setTrail
    (w.trail.fill serial line)
  unfold appendLine
  rw [get_bind, hs]
  dsimp only
  rw [if_neg (by decide)]
  exact ⟨_, note_eq _ _, hb⟩

theorem writeLine_of_room {serial : Nat} {file : LogFile} (hj : e.json = .ok line)
    (hm : w.trail.config.maxBytes = .ok limit) (hs : w.trail.stream = some ⟨serial, false⟩)
    (hc : w.trail.current = some file) (room : ¬(0 < file.size ∧ limit < file.size + (lineBytes line).length)) :
    ∃ w', writeLine line w = .ok () w' ∧
      w.Becomes (w.trail.fill serial line) (w.site.disk.append serial (lineBytes line)) w' := by
  have hneeds := needsRotation_eq hm hs hc (length_lineBytes_pos line)
  rw [decide_eq_false room] at hneeds
  unfold writeLine
  rw [encode_json hj]
  dsimp only
  rw [bind_of_ok hneeds, if_neg (by decide)]
  exact appendLine_open hs line

/-- A line that needs a new file is the first one in it, or no file is open any more. -/
theorem writeLine_of_full (hj : e.json = .ok line) (full : needsRotation (lineBytes line).length w = .ok true w) :
    (∃ p l w', w.site.disk.locate p = .ok l ∧ w.site.disk.node? l = none ∧ writeLine line w = .ok () w' ∧
      w.Becomes ((w.trail.begin p w.site.disk.nextSerial).fill w.site.disk.nextSerial line)
        ((w.site.disk.create l fileMode).append w.site.disk.nextSerial (lineBytes line)) w') ∨
    (∃ f w', writeLine line w = .error f w' ∧ isLoss f = true ∧ w.Becomes w.trail.shut w.site.disk w') := by
  unfold writeLine
  rw [encode_json hj]
  dsimp only
  rw [bind_of_ok full, if_pos rfl]
  rcases rotate_cases w with ⟨p, l, w₁, hl, hn, h₁, b₁⟩ | ⟨f, w₁, h₁, hf, -, b₁⟩
  · have hs : w₁.trail.stream = some ⟨w.site.disk.nextSerial, false⟩ := by
      rw [b₁.trail]
      rfl
    obtain ⟨w', h', b'⟩ := appendLine_open hs line
    rw [b₁.trail, b₁.disk] at b'
    exact Or.inl ⟨p, l, w', hl, hn, (bind_of_ok h₁).trans h', b₁.trans b'⟩
  · exact Or.inr ⟨f, w₁, bind_of_error h₁, hf, b₁⟩

end Writing

/-- The files of a trail are its lines packed one after the other, and the current file is counted right. Unless the
trail is closed it is open. -/
inductive Packed (limit : Nat) (t : Trail) : Prop where
  | unopened (opened : openedIn t.history = []) (current : t.current = none) (stream : t.stream = none)
  | opened (files : filesIn t.history = (Files.pack limit (linesIn t.history)).all)
      (current : t.current.map LogFile.size = some (bytesOf (Files.pack limit (linesIn t.history)).current))
      (stream : t.phase ≠ .stopped → ∃ serial, t.stream = some ⟨serial, false⟩)

/-- An entry that can be written has been lost although a file had been opened for it. -/
def Loses (t : Trail) : Prop :=
  ∃ earlier e later line, t.history = earlier ++ .discarded e :: later ∧ e.json = .ok line ∧ openedIn earlier ≠ []

theorem not_loses_of_discardsIn {t : Trail} (h : discardsIn t.history = 0) : ¬Loses t := by
  rintro ⟨earlier, e, later, line, hh, -⟩
  rw [hh, discardsIn, List.countP_append, List.countP_cons_of_pos rfl] at h
  omega

/-- The files of a trail under a limit are packed, and each has its own lines. -/
structure Orderly (limit : Nat) (w : World) : Prop where
  limited : w.trail.config.maxBytes = .ok limit
  filed : Filed (w.archive none)
  packed : Packed limit w.trail

section Trails
variable {limit : Nat} {t : Trail} {serial : Nat} {line : Text}

/-- The first file of a trail is empty. -/
theorem Packed.begin {d : Disk} {hand : Option Entry} (filed : Filed ⟨t, d, hand⟩) (opened : openedIn t.history = [])
    (p : Path) : Packed limit (t.begin p d.nextSerial) := by
  have hbegun : (t.begin p d.nextSerial).history = t.history ++ [.opened p d.nextSerial] := history_note rfl
  have hfresh : linesTo d.nextSerial t.history = [] := filed.placed _ (by rw [opened]; exact List.not_mem_nil)
  have hnone : linesIn (t.begin p d.nextSerial).history = [] := by
    have horder := filed.order
    dsimp only at horder
    rw [hbegun, linesIn_concat, ← horder, opened]
    rfl
  refine .opened ?_ ?_ fun _ => ⟨d.nextSerial, rfl⟩
  · rw [hnone, hbegun, filesIn_opened hfresh, filesIn, opened]
    rfl
  · rw [hnone]
    rfl

/-- A line for which the current file has no room begins the next one. -/
theorem Packed.begin_fill {d : Disk} {hand : Option Entry} (filed : Filed ⟨t, d, hand⟩) (packed : Packed limit t)
    (p : Path) (full : openedIn t.history ≠ [] → Exceeds limit (Files.pack limit (linesIn t.history)).current line) :
    Packed limit ((t.begin p d.nextSerial).fill d.nextSerial line) := by
  have hbegun : (t.begin p d.nextSerial).history = t.history ++ [.opened p d.nextSerial] := history_note rfl
  have hfilled : ((t.begin p d.nextSerial).fill d.nextSerial line).history =
      (t.begin p d.nextSerial).history ++ [.wrote d.nextSerial line] := history_note rfl
  -- A new file has a number that none had before, so no line has gone there yet.
  have hfresh : linesTo d.nextSerial t.history = [] := filed.placed _ fun h => Nat.lt_irrefl _ (filed.used _ h)
  have hlines : linesIn ((t.begin p d.nextSerial).fill d.nextSerial line).history = linesIn t.history ++ [line] := by
    rw [hfilled, hbegun, linesIn_concat, linesIn_concat]
    exact congrArg (· ++ [line]) (List.append_nil _)
  have hnext := filed.opened p []
  have hfiles : filesIn ((t.begin p d.nextSerial).fill d.nextSerial line).history = filesIn t.history ++ [[line]] := by
    have hempty : filesIn (t.begin p d.nextSerial).history = filesIn t.history ++ [[]] := by
      rw [hbegun]
      exact filesIn_opened hfresh p
    rw [hfilled]
    exact filesIn_wrote hnext.sorted (hnext.stream _ rfl) hempty line
  have hpack : (Files.pack limit (linesIn t.history ++ [line])).all = filesIn t.history ++ [[line]] ∧
      (Files.pack limit (linesIn t.history ++ [line])).current = [line] := by
    rw [Files.pack_concat, Files.add]
    cases packed with
    | unopened opened =>
      have hnone : linesIn t.history = [] := by
        have horder := filed.order
        dsimp only at horder
        rw [← horder, opened]
        rfl
      rw [hnone, filesIn, opened]
      exact ⟨rfl, rfl⟩
    | opened files current stream =>
      rw [if_pos (full (opened_ne_nil files)), files]
      exact ⟨rfl, rfl⟩
  refine .opened ?_ ?_ fun _ => ⟨d.nextSerial, rfl⟩
  · rw [hlines, hfiles, hpack.1]
  · rw [hlines, hpack.2, bytesOf, List.flatMap_singleton]
    exact congrArg some (Nat.zero_add _)

/-- A line for which it has room goes to the current file. -/
theorem Packed.fill {d : Disk} {hand : Option Entry} (filed : Filed ⟨t, d, hand⟩)
    (stream : t.stream = some ⟨serial, false⟩)
    (files : filesIn t.history = (Files.pack limit (linesIn t.history)).all)
    (current : t.current.map LogFile.size = some (bytesOf (Files.pack limit (linesIn t.history)).current))
    (room : ¬Exceeds limit (Files.pack limit (linesIn t.history)).current line) :
    Packed limit (t.fill serial line) := by
  have hhistory : (t.fill serial line).history = t.history ++ [.wrote serial line] := history_note rfl
  have hlines : linesIn (t.fill serial line).history = linesIn t.history ++ [line] := by
    rw [hhistory, linesIn_concat]
    rfl
  have hpack : Files.pack limit (linesIn (t.fill serial line).history) =
      ⟨(Files.pack limit (linesIn t.history)).full, (Files.pack limit (linesIn t.history)).current ++ [line]⟩ := by
    rw [hlines, Files.pack_concat, Files.add, if_neg room]
  refine .opened ?_ ?_ fun _ => ⟨serial, stream⟩
  · rw [hpack, hhistory]
    exact filesIn_wrote filed.sorted (filed.stream _ stream) files line
  · rw [hpack, bytesOf_concat]
    change (t.current.map _).map LogFile.size = _
    cases hc : t.current with
    | none =>
      rw [hc] at current
      cases current
    | some file =>
      rw [hc] at current
      exact congrArg (some <| · + (lineBytes line).length) (Option.some.inj current)

/-- A later trail has the same files: nothing has been opened or written meanwhile, and the current file is still open,
unless the trail has been closed. -/
structure Trail.Rests (t t' : Trail) : Prop where
  config : t'.config = t.config
  current : t'.current = t.current
  journal : t'.journal = t.journal ∨ ∃ deed : Deed, deed.Silent ∧ t'.journal = deed :: t.journal
  stream : t'.stream = t.stream ∨ t'.stream = none ∧ t'.phase = .stopped
  phase : t.phase = .stopped → t'.phase = .stopped

theorem Trail.Rests.views {t' : Trail} (rests : t.Rests t') : openedIn t'.history = openedIn t.history ∧
    linesIn t'.history = linesIn t.history ∧ (∀ s, linesTo s t'.history = linesTo s t.history) := by
  rcases rests.journal with hj | ⟨deed, silent, hj⟩
  · have hhistory : t'.history = t.history := congrArg List.reverse hj
    rw [hhistory]
    exact ⟨rfl, rfl, fun _ => rfl⟩
  · rw [history_note hj, openedIn_concat, silent.opened, linesIn_concat, silent.lines, List.append_nil, List.append_nil]
    refine ⟨rfl, rfl, fun s => ?_⟩
    rw [linesTo_concat, silent.linesTo, List.append_nil]

theorem rests_enter (t : Trail) (e : Entry) : t.Rests (t.enter e) :=
  ⟨rfl, rfl, Or.inr ⟨.queued e, ⟨rfl, rfl, fun _ => rfl⟩, rfl⟩, Or.inl rfl, id⟩

theorem rests_drop (t : Trail) (e : Entry) : t.Rests (t.drop e) :=
  ⟨rfl, rfl, Or.inr ⟨.discarded e, ⟨rfl, rfl, fun _ => rfl⟩, rfl⟩, Or.inl rfl, id⟩

theorem Packed.rest {t' : Trail} (packed : Packed limit t) (rests : t.Rests t') : Packed limit t' := by
  obtain ⟨hopened, hlines, hlinesTo⟩ := rests.views
  cases packed with
  | unopened opened current stream =>
    refine .unopened (hopened.trans opened) (rests.current.trans current) ?_
    rcases rests.stream with h | ⟨h, -⟩
    · exact h.trans stream
    · exact h
  | opened files current stream =>
    have hfiles : filesIn t'.history = filesIn t.history := by
      unfold filesIn
      rw [hopened]
      exact List.map_congr_left fun s _ => hlinesTo s
    refine .opened ?_ ?_ fun h => ?_
    · rw [hfiles, hlines]
      exact files
    · rw [rests.current, hlines]
      exact current
    · rcases rests.stream with hs | ⟨-, hp⟩
      · rw [hs]
        exact stream fun hp => h (rests.phase hp)
      · exact absurd hp h

theorem filed_of_rests {t' : Trail} {d : Disk} {hand : Option Entry} (filed : Filed ⟨t, d, hand⟩) (rests : t.Rests t') :
    Filed ⟨t', d, hand⟩ := by
  obtain ⟨hopened, hlines, hlinesTo⟩ := rests.views
  constructor
  · intro s hs
    dsimp only at hs ⊢
    rw [hopened]
    rcases rests.stream with h | ⟨h, -⟩
    · exact filed.stream s (h ▸ hs)
    · rw [h] at hs
      cases hs
  · simpa only [hopened] using filed.sorted
  · simpa only [hopened] using filed.used
  · simpa only [hopened, hlinesTo] using filed.placed
  · simpa only [hopened, hlinesTo, hlines] using filed.order
  · simpa only [hopened, hlinesTo] using filed.content

end Trails

end Custody.Audit
