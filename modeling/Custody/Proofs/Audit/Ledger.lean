import Custody.Proofs.Audit.Archive
import Custody.Proofs.Calendar.Instants
import Custody.Proofs.Data.Json
import Mathlib.Data.List.Forall2

/-! What the history of a trail accounts for: every loss, every entry, and every line of every file. -/
namespace Custody.Audit

section Views
variable (h : List Deed) (d : Deed)

variable {d} in
theorem history_note {t t' : Trail} (ht : t'.journal = d :: t.journal) : t'.history = t.history ++ [d] := by
  rw [Trail.history, ht, List.reverse_cons]
  rfl

@[simp]
theorem queuedIn_concat : queuedIn (h ++ [d]) = queuedIn h ++ queuedIn [d] := List.filterMap_append

@[simp]
theorem openedIn_concat : openedIn (h ++ [d]) = openedIn h ++ openedIn [d] := List.filterMap_append

@[simp]
theorem linesIn_concat : linesIn (h ++ [d]) = linesIn h ++ linesIn [d] := List.filterMap_append

@[simp]
theorem linesTo_concat (s : Nat) : linesTo s (h ++ [d]) = linesTo s h ++ linesTo s [d] :=
  List.filterMap_append

@[simp]
theorem endingsIn_concat : endingsIn (h ++ [d]) = endingsIn h ++ endingsIn [d] := List.filter_append h [d]

@[simp]
theorem discardsIn_concat : discardsIn (h ++ [d]) = discardsIn h + discardsIn [d] := List.countP_append

@[simp]
theorem rejectionsIn_concat : rejectionsIn (h ++ [d]) = rejectionsIn h + rejectionsIn [d] :=
  List.countP_append

end Views

def Entry.Dated (e : Entry) : Prop := ∃ m, e.time.toUtc = .ok m

/-- An instant is a time in the calendar. -/
theorem toUtc_of_moment (m : Moment) : Timestamp.toUtc ⟨m.micros, some 0⟩ = .ok m :=
  Timestamp.toUtc_eq_ok.2 (Int.sub_zero _).symm

/-- The time of a report is the time at which it was made. -/
theorem dated_of_entry {r : Report} {now : Moment} {e : Entry} (h : r.entry now = .ok e) : e.Dated := by
  unfold Report.entry at h
  obtain ⟨event, -, h⟩ := Failure.bind_eq_ok.1 h
  obtain ⟨action, -, h⟩ := Failure.bind_eq_ok.1 h
  obtain ⟨result, -, h⟩ := Failure.bind_eq_ok.1 h
  have ht : e.time = ⟨now.micros, some 0⟩ := by
    dsimp only at h
    split at h
    · obtain ⟨metadata, -, h⟩ := Failure.bind_eq_ok.1 h
      cases h
      rfl
    · cases h
      rfl
  exact ⟨now, ht ▸ toUtc_of_moment now⟩

/-- An entry that cannot be written as JSON is an ordinary loss. -/
theorem Entry.Dated.json_error {e : Entry} (he : e.Dated) {f : Failure} (h : e.json = .error f) :
    isLoss f = true := by
  obtain ⟨m, hm⟩ := he
  rcases Failure.bind_eq_error.1 h with hf | ⟨fields, -, hw⟩
  · unfold Entry.fields at hf
    rw [hm] at hf
    cases hf
  · rcases Json.unwritable_write hw with rfl | rfl
    · rfl
    · rfl

theorem encode_json {e : Entry} {line : Text} (h : e.json = .ok line) :
    Utf8.encode? (line ++ "\n") = some (lineBytes line) := by
  obtain ⟨fields, -, hw⟩ := Failure.bind_eq_ok.1 h
  obtain ⟨bytes, hb⟩ := (Json.plain_write hw).encode_line
  rw [hb]
  unfold Utf8.encode? at hb
  split at hb
  · exact hb.symm ▸ rfl
  · cases hb

/-- A size that is no number of bytes is too large, or no number at all. -/
theorem maxBytes_error {c : Config.AuditSettings} {f : Failure} (h : c.maxBytes = .error f) :
    f = .overflow ∨ f = .badValue := by
  unfold Config.AuditSettings.maxBytes Config.mebibytes at h
  dsimp only at h
  split at h
  · split at h
    · cases h
      exact Or.inl rfl
    · cases h
      exact Or.inr rfl
  · split at h
    · cases h
      exact Or.inl rfl
    · split at h
      · cases h
      · split at h <;> cases h

namespace Archive
variable {a b : Archive}

/-- The counter of losses agrees with the history. -/
def Counted (a : Archive) : Prop :=
  a.trail.dropped = discardsIn a.trail.history + rejectionsIn a.trail.history

theorem Counted.step (h : a.Step b) (ha : a.Counted) : b.Counted := by
  unfold Counted at ha ⊢
  cases h with
  | turned => exact ha
  | served => exact ha
  | untimed => exact ha
  | prepared => exact ha
  | removed => exact ha
  | closed => exact ha
  | took => exact ha
  | lost => exact ha
  | @opened t =>
    rw [history_note (t := t) rfl, discardsIn_concat, rejectionsIn_concat]
    exact ha
  | @queued t =>
    rw [history_note (t := t) rfl, discardsIn_concat, rejectionsIn_concat]
    exact ha
  | @wrote t =>
    rw [history_note (t := t) rfl, discardsIn_concat, rejectionsIn_concat]
    exact ha
  | @rejected t =>
    rw [history_note (t := t) rfl, discardsIn_concat, rejectionsIn_concat]
    change t.dropped + 1 = discardsIn t.history + 0 + (rejectionsIn t.history + 1)
    dsimp only at ha
    omega
  | @discarded t =>
    rw [history_note (t := t) rfl, discardsIn_concat, rejectionsIn_concat]
    change t.dropped + 1 = discardsIn t.history + 1 + (rejectionsIn t.history + 0)
    dsimp only at ha
    omega

/-- Every entry that is still on its way has a time in the calendar. -/
def Timely (a : Archive) : Prop := ∀ e ∈ a.hand.toList ++ a.trail.queue, e.Dated

theorem Timely.step (h : a.Step b) (ha : a.Timely) : b.Timely := by
  have later : ∀ {t t' : Trail} {d d' : Disk} {hand : Option Entry}, Timely ⟨t, d, hand⟩ → t'.queue = t.queue →
      Timely ⟨t', d', none⟩ := by
    intro t t' d d' hand ha hq e he
    dsimp only at he
    rw [hq] at he
    exact ha e (List.mem_append_right _ he)
  cases h with
  | turned => exact ha
  | served => exact ha
  | untimed => exact ha
  | prepared => exact ha
  | removed => exact ha
  | closed => exact ha
  | opened => exact ha
  | rejected => exact ha
  | wrote => exact later ha rfl
  | discarded => exact later ha rfl
  | lost => exact later ha rfl
  | queued r now e he =>
    intro e' he'
    dsimp only [Trail.enter] at he'
    rw [← List.append_assoc] at he'
    rcases List.mem_append.1 he' with he' | he'
    · exact ha e' he'
    · rw [List.mem_singleton.1 he']
      exact dated_of_entry he
  | took e rest hqueue =>
    intro e' he'
    refine ha e' ?_
    rw [hqueue]
    exact he'

/-- Every entry that was ever queued has ended, in the order of the queue, or is still on its way. -/
structure Complete (a : Archive) : Prop where
  limited : a.trail.config.maxBytes ≠ .error .overflow
  timely : a.Timely
  ends : ∃ done, queuedIn a.trail.history = done ++ (a.hand.toList ++ a.trail.queue) ∧
    List.Forall₂ Deed.Ends done (endingsIn a.trail.history)

/-- The entry on its way has ended. -/
theorem settle_ends {t t' : Trail} {e : Entry} {deed : Deed}
    (ha : ∃ done, queuedIn t.history = done ++ e :: t.queue ∧ List.Forall₂ Deed.Ends done (endingsIn t.history))
    (queue : t'.queue = t.queue) (journal : t'.journal = deed :: t.journal) (queued : queuedIn [deed] = [])
    (ending : endingsIn [deed] = [deed]) (hd : Deed.Ends e deed) :
    ∃ done, queuedIn t'.history = done ++ t'.queue ∧ List.Forall₂ Deed.Ends done (endingsIn t'.history) := by
  obtain ⟨done, hq, hf⟩ := ha
  refine ⟨done ++ [e], ?_, ?_⟩
  · rw [history_note journal, queuedIn_concat, queued, queue, List.append_nil, hq, List.append_assoc]
    rfl
  · rw [history_note journal, endingsIn_concat, ending]
    exact List.rel_append hf (.cons hd .nil)

theorem Complete.step (h : a.Step b) (ha : a.Complete) : b.Complete := by
  have htimely : b.Timely := ha.timely.step h
  have hlimited : b.trail.config.maxBytes ≠ .error .overflow := by
    rw [h.config]
    exact ha.limited
  refine ⟨hlimited, htimely, ?_⟩
  obtain ⟨done, hq, hf⟩ := ha.ends
  cases h with
  | turned => exact ⟨done, hq, hf⟩
  | served => exact ⟨done, hq, hf⟩
  | untimed => exact ⟨done, hq, hf⟩
  | prepared => exact ⟨done, hq, hf⟩
  | removed => exact ⟨done, hq, hf⟩
  | closed => exact ⟨done, hq, hf⟩
  | @opened t =>
    rw [history_note (t := t) rfl, queuedIn_concat, endingsIn_concat]
    exact ⟨done, (List.append_nil _).trans hq, (List.append_nil (endingsIn _)).symm ▸ hf⟩
  | @rejected t =>
    rw [history_note (t := t) rfl, queuedIn_concat, endingsIn_concat]
    exact ⟨done, (List.append_nil _).trans hq, (List.append_nil (endingsIn _)).symm ▸ hf⟩
  | @queued t d hand r now e he =>
    rw [history_note (t := t) rfl, queuedIn_concat, endingsIn_concat]
    refine ⟨done, ?_, (List.append_nil (endingsIn _)).symm ▸ hf⟩
    change queuedIn t.history ++ [e] = done ++ (hand.toList ++ (t.queue ++ [e]))
    dsimp only at hq
    rw [hq, List.append_assoc, List.append_assoc]
  | took e rest hqueue =>
    rw [hqueue] at hq
    exact ⟨done, hq, hf⟩
  | wrote e s line hj => exact settle_ends ⟨done, hq, hf⟩ rfl rfl rfl rfl (.wrote _ _ hj)
  | discarded e => exact settle_ends ⟨done, hq, hf⟩ rfl rfl rfl rfl .discarded
  | lost e f grave cause =>
    -- A grave failure would need a time outside the calendar, or a configuration without a limit.
    rcases cause with hj | hm
    · rw [(ha.timely e List.mem_cons_self).json_error hj] at grave
      cases grave
    · rcases maxBytes_error hm with rfl | rfl
      · exact absurd hm ha.limited
      · cases grave

/-- Every file of the trail holds the lines that were written to it, and nothing else. -/
structure Filed (a : Archive) : Prop where
  stream : ∀ s, a.trail.stream = some s → (openedIn a.trail.history).getLast? = some s.serial
  sorted : (openedIn a.trail.history).Pairwise (· < ·)
  used : ∀ s ∈ openedIn a.trail.history, s < a.disk.nextSerial
  placed : ∀ s, s ∉ openedIn a.trail.history → linesTo s a.trail.history = []
  order : (openedIn a.trail.history).flatMap (linesTo · a.trail.history) = linesIn a.trail.history
  content : ∀ l f, a.disk.node? l = some (.file f) → f.serial ∈ openedIn a.trail.history →
    f.content = (linesTo f.serial a.trail.history).flatMap lineBytes

/-- Deeds that concern no file. -/
theorem Filed.note {t t' : Trail} {d : Disk} {hand hand' : Option Entry} {deed : Deed} (ha : Filed ⟨t, d, hand⟩)
    (stream : t'.stream = t.stream) (journal : t'.journal = deed :: t.journal) (opens : openedIn [deed] = [])
    (lines : linesIn [deed] = []) (linesTo' : ∀ s, linesTo s [deed] = []) : Filed ⟨t', d, hand'⟩ := by
  have hh : t'.history = t.history ++ [deed] := history_note journal
  have ho : openedIn t'.history = openedIn t.history := by rw [hh, openedIn_concat, opens, List.append_nil]
  have hl : linesIn t'.history = linesIn t.history := by rw [hh, linesIn_concat, lines, List.append_nil]
  have ht : ∀ s, linesTo s t'.history = linesTo s t.history := by
    intro s
    rw [hh, linesTo_concat, linesTo', List.append_nil]
  constructor
  · simpa only [stream, ho] using ha.stream
  · simpa only [ho] using ha.sorted
  · simpa only [ho] using ha.used
  · simpa only [ho, ht] using ha.placed
  · simpa only [ho, ht, hl] using ha.order
  · simpa only [ho, ht] using ha.content

theorem Filed.opened {t : Trail} {d : Disk} {hand : Option Entry} (ha : Filed ⟨t, d, hand⟩) (p : Path)
    (l : Location) :
    Filed ⟨t.begin p d.nextSerial, d.create l fileMode, hand⟩ := by
  obtain ⟨stream, sorted, used, placed, order, content⟩ := ha
  dsimp only at stream sorted used placed order content
  have hnew : d.nextSerial ∉ openedIn t.history := fun hm => Nat.lt_irrefl _ (used _ hm)
  constructor <;> dsimp only <;> rw [history_note (t := t) rfl, openedIn_concat]
  · intro s hs
    cases hs
    exact List.getLast?_concat
  · refine List.pairwise_append.2 ⟨sorted, List.pairwise_singleton _ _, ?_⟩
    intro s hs s' hs'
    rw [List.mem_singleton.1 hs']
    exact used s hs
  · intro s hs
    rcases List.mem_append.1 hs with hs | hs
    · exact Nat.lt_succ_of_lt (used s hs)
    · rw [List.mem_singleton.1 hs]
      exact Nat.lt_succ_self _
  · intro s hs
    rw [linesTo_concat]
    exact (List.append_nil _).trans (placed s fun hm => hs (List.mem_append_left _ hm))
  · have hlines : ∀ s, linesTo s (t.history ++ [.opened p d.nextSerial]) = linesTo s t.history := fun s => by
      rw [linesTo_concat]
      exact List.append_nil _
    have hlast : [d.nextSerial].flatMap (linesTo · t.history) = [] := by
      rw [List.flatMap_singleton, placed _ hnew]
    simp only [hlines]
    rw [linesIn_concat, List.flatMap_append, order]
    exact congrArg _ hlast
  · intro k f hk hs
    rw [linesTo_concat]
    rw [Disk.node?_create] at hk
    split at hk
    · cases hk
      have := placed _ hnew
      dsimp only
      rw [this]
      rfl
    · have hlt := Disk.serial_lt hk
      rcases List.mem_append.1 hs with hs | hs
      · rw [content k f hk hs]
        exact congrArg _ (List.append_nil _).symm
      · rw [List.mem_singleton.1 hs] at hlt
        exact absurd hlt (Nat.lt_irrefl _)

theorem Filed.wrote {t : Trail} {d : Disk} {hand : Option Entry} (ha : Filed ⟨t, d, hand⟩) {s : Stream}
    (hs : t.stream = some s) (line : Text) :
    Filed ⟨t.fill s.serial line, d.append s.serial (lineBytes line), none⟩ := by
  obtain ⟨stream, sorted, used, placed, order, content⟩ := ha
  dsimp only at stream sorted used placed order content
  have hopened : openedIn (t.history ++ [.wrote s.serial line]) = openedIn t.history := by
    rw [openedIn_concat]
    exact List.append_nil _
  have hlast : s.serial ∈ openedIn t.history := List.mem_of_getLast? (stream s hs)
  have hsame : linesTo s.serial [.wrote s.serial line] = [line] := by simp [linesTo]
  have hother : ∀ k, k ≠ s.serial → linesTo k [.wrote s.serial line] = [] := by
    intro k hk
    simp [linesTo, Ne.symm hk]
  constructor <;> dsimp only <;> rw [history_note (t := t) rfl, hopened]
  · exact stream
  · exact sorted
  · exact used
  · intro k hk
    rw [linesTo_concat, placed k hk, hother k (fun h => hk (h ▸ hlast)), List.append_nil]
  · -- Only the file opened last has got a line.
    obtain ⟨before, hbefore⟩ := List.getLast?_eq_some_iff.1 (stream s hs)
    have hfirst : ∀ k ∈ before, k ≠ s.serial := by
      intro k hk
      rw [hbefore] at sorted
      have := (List.pairwise_append.1 sorted).2.2 k hk s.serial (List.mem_singleton.2 rfl)
      exact Nat.ne_of_lt this
    have hmap : before.flatMap (linesTo · (t.history ++ [.wrote s.serial line])) =
        before.flatMap (linesTo · t.history) := by
      refine List.flatMap_congr fun k hk => ?_
      rw [linesTo_concat, hother k (hfirst k hk), List.append_nil]
    rw [hbefore, List.flatMap_append, List.flatMap_singleton] at order ⊢
    rw [hmap, linesTo_concat, hsame, linesIn_concat, ← List.append_assoc, order]
    rfl
  · intro k f hk hf
    rw [Disk.node?_append, Option.map_eq_some_iff] at hk
    obtain ⟨n, hn, hk⟩ := hk
    cases n with
    | directory mode => cases hk
    | file g =>
      rw [linesTo_concat]
      by_cases hg : g.serial = s.serial
      · rw [Node.edit, if_pos hg] at hk
        cases hk
        have := content k g hn hf
        dsimp only at hf ⊢
        rw [hg, hsame, List.flatMap_append, ← hg, ← this, List.flatMap_singleton]
      · rw [Node.edit, if_neg hg] at hk
        cases hk
        rw [hother _ hg, List.append_nil]
        exact content k f hn hf

theorem Filed.step (h : a.Step b) (ha : a.Filed) : b.Filed := by
  have same : ∀ {t t' : Trail} {d : Disk} {hand hand' : Option Entry}, Filed ⟨t, d, hand⟩ →
      t'.stream = t.stream → t'.history = t.history → Filed ⟨t', d, hand'⟩ := by
    intro t t' d hand hand' ha hs hh
    obtain ⟨stream, sorted, used, placed, order, content⟩ := ha
    dsimp only at stream sorted used placed order content
    constructor <;> dsimp only <;> rw [hh]
    · rwa [hs]
    · exact sorted
    · exact used
    · exact placed
    · exact order
    · exact content
  cases h with
  | turned => exact same ha rfl rfl
  | served => exact same ha rfl rfl
  | untimed => exact same ha rfl rfl
  | took => exact same ha rfl rfl
  | lost => exact same ha rfl rfl
  | closed => exact ⟨nofun, ha.sorted, ha.used, ha.placed, ha.order, ha.content⟩
  | prepared d' hd =>
    refine ⟨ha.stream, ha.sorted, ?_, ha.placed, ha.order, ?_⟩
    · dsimp only
      rw [hd.nextSerial]
      exact ha.used
    · intro l f hf
      exact ha.content l f ((hd.file l f).1 hf)
  | removed l =>
    refine ⟨ha.stream, ha.sorted, ha.used, ha.placed, ha.order, ?_⟩
    intro k f hf
    dsimp only at hf
    rw [Disk.node?_keep] at hf
    split at hf
    · exact ha.content k f hf
    · cases hf
  | opened p l => exact ha.opened p l
  | queued => exact ha.note rfl rfl rfl rfl fun _ => rfl
  | rejected => exact ha.note rfl rfl rfl rfl fun _ => rfl
  | discarded => exact ha.note rfl rfl rfl rfl fun _ => rfl
  | wrote e s line hj hs => exact ha.wrote hs line

/-- A running trail has a timer that ends in time, and it has a file that is only given up for another one
if there is a limit to tell when. -/
structure Served (a : Archive) : Prop where
  timer : a.trail.phase = .running → ∃ timer, a.trail.timer = some timer ∧ timer.stuck = false
  file : a.trail.phase = .running → (∀ limit, a.trail.config.maxBytes ≠ .ok limit) →
    a.trail.stream.isSome ∧ a.trail.current.isSome

theorem Served.step (h : a.Step b) (ha : a.Served) : b.Served := by
  cases h with
  | turned p turn =>
    exact ⟨fun h => absurd h turn.ne_running, fun h => absurd h turn.ne_running⟩
  | served timer timely phase stream current => exact ⟨fun _ => ⟨timer, rfl, timely⟩, fun _ _ => ⟨stream, current⟩⟩
  | untimed phase => exact ⟨fun h => absurd h phase, ha.file⟩
  | closed idle =>
    refine ⟨ha.timer, fun hp hm => ?_⟩
    obtain ⟨hs, hc⟩ := ha.file hp hm
    rcases idle hp with h | h | ⟨limit, h⟩
    · rw [h] at hs
      cases hs
    · rw [h] at hc
      cases hc
    · exact absurd h (hm limit)
  | opened => exact ⟨ha.timer, fun _ _ => ⟨rfl, rfl⟩⟩
  | wrote e s line hj hs =>
    refine ⟨ha.timer, fun hp hm => ?_⟩
    obtain ⟨hs, hc⟩ := ha.file hp hm
    exact ⟨hs, (Option.isSome_map).trans hc⟩
  | prepared => exact ⟨ha.timer, ha.file⟩
  | removed => exact ⟨ha.timer, ha.file⟩
  | queued => exact ⟨ha.timer, ha.file⟩
  | rejected => exact ⟨ha.timer, ha.file⟩
  | took => exact ⟨ha.timer, ha.file⟩
  | discarded => exact ⟨ha.timer, ha.file⟩
  | lost => exact ⟨ha.timer, ha.file⟩

end Archive

end Custody.Audit
