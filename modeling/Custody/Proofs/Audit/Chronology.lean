import Custody.Proofs.Audit.Lines
import Custody.Proofs.Audit.Listing
import Custody.Proofs.Audit.Moves
import Custody.Proofs.Audit.Numbering

/-! When the files of a trail are listed in the order in which it has opened them. -/
namespace Custody

namespace Clock
variable {c c' : Clock}

/-- A clock that does not go back, in years with four digits. -/
structure Ascends (c : Clock) : Prop where
  sorted : (c.now :: c.later).Pairwise fun m m' => m.micros ≤ m'.micros
  year : ∀ m ∈ c.now :: c.later, 1000 ≤ m.date.year

theorem Ascends.next (h : c.Ascends) : c.next.Ascends ∧ c.now.micros ≤ c.next.now.micros := by
  obtain ⟨now, later⟩ := c
  cases later with
  | nil => exact ⟨h, Nat.le_refl _⟩
  | cons m rest =>
    exact ⟨⟨h.sorted.tail, fun m' hm' => h.year m' (List.mem_cons_of_mem now hm')⟩,
      List.rel_of_pairwise_cons h.sorted List.mem_cons_self⟩

theorem Ascends.ticks (h : c.Ascends) (ht : c.Ticks c') : c'.Ascends ∧ c.now.micros ≤ c'.now.micros := by
  induction ht with
  | refl => exact ⟨h, Nat.le_refl _⟩
  | tail _ hnext ih =>
    obtain ⟨hascends, hle⟩ := ih.1.next
    rw [hnext]
    exact ⟨hascends, Nat.le_trans ih.2 hle⟩

end Clock

namespace Audit
open Act Archive

/-- The files that were opened, the earliest first, each with its serial number. -/
def openingsIn (h : List Deed) : List (Path × Nat) :=
  h.filterMap fun
    | .opened p serial => some (p, serial)
    | _ => none

theorem openingsIn_append (h more : List Deed) : openingsIn (h ++ more) = openingsIn h ++ openingsIn more :=
  List.filterMap_append

theorem openingsIn_of_none {h : List Deed} (none : ∀ p serial, .opened p serial ∉ h) : openingsIn h = [] := by
  refine List.filterMap_eq_nil_iff.2 fun deed hd => ?_
  cases deed with
  | opened p serial => exact absurd hd (none p serial)
  | _ => rfl

theorem openedIn_eq (h : List Deed) : openedIn h = (openingsIn h).map Prod.snd := by
  rw [openingsIn, List.map_filterMap, openedIn]
  congr 1
  funext deed
  cases deed <;> rfl

/-- There is nothing with a name of the trail in a directory, and the way to it does not lead through such a place. -/
structure Vacant (d : Disk) (dir : Path) : Prop where
  nothing : ∀ n, isLogName n = true → d.node? (d.place dir ++ [n]) = none
  outside : ∀ n, isLogName n = true → ∀ q, dir.LeadsOver q → d.place q ≠ d.place dir ++ [n]

/-- There is nothing in an empty directory, and the way to it leads over directories. -/
theorem vacant_of_empty {d : Disk} {dir : Path} {l : Location} (hl : d.locate dir = .ok l) (hempty : d.names l = []) :
    Vacant d dir := by
  have hplace : d.place dir = l := (Disk.eq_place_of_locate hl).symm
  have nothing : ∀ n, d.node? (l ++ [n]) = none := by
    intro n
    rw [Option.eq_none_iff_forall_ne_some]
    intro x hx
    have hn : n ∈ d.names l := Disk.mem_names.2 ⟨x, hx⟩
    rw [hempty] at hn
    cases hn
  refine ⟨fun n _ => hplace ▸ nothing n, ?_⟩
  rintro n - q ⟨hroot, rest, hparts⟩ heq
  rw [hplace] at heq
  have horigin : d.origin q = d.origin dir := by rw [Disk.origin, Disk.origin, hroot]
  have hfold := Disk.foldlM_of_locate hl
  rw [← hparts, ← horigin, List.foldlM_append, Failure.bind_eq_ok] at hfold
  obtain ⟨here, hhere, hrest⟩ := hfold
  rw [← Disk.eq_place_of_foldlM hhere] at heq
  cases rest with
  | nil =>
    cases hrest
    cases List.self_eq_append_right.1 heq
  | cons name more =>
    -- The way goes on from there, so that there is a directory.
    rw [List.foldlM_cons, Failure.bind_eq_ok] at hrest
    obtain ⟨next, hstep, -⟩ := hrest
    obtain ⟨⟨mode, hmode⟩, -⟩ := Disk.step_ok hstep
    rw [heq, nothing n] at hmode
    cases hmode

/-- The files of a trail were opened at some instants, the latest first, and they are all that is in its directory. -/
structure OpenedAt (w : World) (ms : List Moment) : Prop where
  clock : w.site.clock.Ascends
  successive : Successive ms
  past : ∀ m ∈ ms, m.micros ≤ w.site.clock.now.micros
  opened : (openingsIn w.trail.history).map Prod.fst = (numbered ms).reverse.map w.trail.config.dir.child
  there : ∀ o ∈ openingsIn w.trail.history, ∃ f, w.site.disk.stat o.1 = .ok (.file f) ∧ f.serial = o.2
  others : ∀ n, isLogName n = true → n ∉ numbered ms →
    w.site.disk.node? (w.site.disk.place w.trail.config.dir ++ [n]) = none
  outside : ∀ n, isLogName n = true → ∀ q, w.trail.config.dir.LeadsOver q →
    w.site.disk.place q ≠ w.site.disk.place w.trail.config.dir ++ [n]

section Steps
variable {w w' : World} {ms : List Moment} {n : Text}

theorem OpenedAt.writes (h : OpenedAt w ms) (hw : Writes w w') : OpenedAt w' ms := by
  obtain ⟨hascends, hforward⟩ := h.clock.ticks hw.clock
  obtain ⟨more, hhistory, hnone⟩ := hw.history
  have hopenings : openingsIn w'.trail.history = openingsIn w.trail.history := by
    rw [hhistory, openingsIn_append, openingsIn_of_none hnone, List.append_nil]
  have hplace : ∀ p, w'.site.disk.place p = w.site.disk.place p := Disk.place_eq_of_cwd hw.disk.cwd
  refine ⟨hascends, h.successive, fun m hm => Nat.le_trans (h.past m hm) hforward, ?_, ?_, ?_, ?_⟩
  · rw [hopenings, hw.config]
    exact h.opened
  · rw [hopenings]
    intro o ho
    obtain ⟨f, hf, hserial⟩ := h.there o ho
    obtain ⟨l, hl, hn⟩ := Disk.stat_eq_ok.1 hf
    obtain ⟨g, hg, hsame, -⟩ := hw.disk.kept l f hn
    exact ⟨g, Disk.stat_eq_ok.2 ⟨l, hw.disk.toHasDirectories.locate hl, hg⟩, hsame.trans hserial⟩
  · intro n hn hnew
    rw [hw.config, hplace]
    exact hw.disk.made _ (h.outside n hn) (h.others n hn hnew)
  · intro n hn q hq
    rw [hw.config, hplace, hplace]
    rw [hw.config] at hq
    exact h.outside n hn q hq

theorem OpenedAt.stat_of_mem (h : OpenedAt w ms) (hn : n ∈ numbered ms) :
    ∃ f, w.site.disk.stat (w.trail.config.dir.child n) = .ok (.file f) := by
  have hp : w.trail.config.dir.child n ∈ (openingsIn w.trail.history).map Prod.fst := by
    rw [h.opened]
    exact List.mem_map_of_mem (List.mem_reverse.2 hn)
  obtain ⟨o, ho, hp⟩ := List.mem_map.1 hp
  obtain ⟨f, hf, -⟩ := h.there o ho
  exact ⟨f, hp ▸ hf⟩

theorem OpenedAt.mem_of_there (h : OpenedAt w ms) (hn : isLogName n = true) {l : Location} {x : Node}
    (hl : w.site.disk.locate (w.trail.config.dir.child n) = .ok l) (hx : w.site.disk.node? l = some x) :
    n ∈ numbered ms := by
  by_contra hnot
  rw [Disk.eq_place_child (ne_dots_of_isLogName hn) hl, h.others n hn hnot] at hx
  cases hx

/-- The first name of an instant that is free is the one with the number of its files so far. -/
theorem OpenedAt.count_eq (h : OpenedAt w ms) {k : Nat}
    (first : FirstFree w.site.disk w.trail.config.dir w.site.clock.now k) : k = ms.count w.site.clock.now := by
  have hyear := h.clock.year _ List.mem_cons_self
  have taken : ∀ j < k, j < ms.count w.site.clock.now := by
    intro j hj
    obtain ⟨l, x, hl, hx, -⟩ := Disk.check_true (first.taken j hj)
    exact (logName_mem_numbered h.successive hyear).1 (h.mem_of_there (isLogName_logName _ _) hl hx)
  have free : ¬k < ms.count w.site.clock.now := by
    intro hk
    obtain ⟨f, hf⟩ := h.stat_of_mem ((logName_mem_numbered h.successive hyear).2 hk)
    obtain ⟨l, hl, hn⟩ := Disk.stat_eq_ok.1 hf
    have hnone := Disk.node?_of_pathExists_false first.free hl
    rw [hn] at hnone
    cases hnone
  cases k with
  | zero => omega
  | succ k =>
    have := taken k (Nat.lt_succ_self k)
    omega

theorem Opens.openings {k : Nat} {l : Location} (ho : Opens k l w w') :
    openingsIn w'.trail.history = openingsIn w.trail.history ++
      [(logPath w.trail.config.dir w.site.clock.now k, w.site.disk.nextSerial)] := by
  rw [ho.trail, history_note (t := w.trail) rfl, openingsIn_append]
  rfl

/-- A file under the next name is the latest one. -/
theorem OpenedAt.opens (h : OpenedAt w ms) {k : Nat} {l : Location} (ho : Opens k l w w') :
    OpenedAt w' (w.site.clock.now :: ms) := by
  obtain rfl := h.count_eq ho.first
  obtain ⟨hascends, hforward⟩ := h.clock.next
  have hconfig : w'.trail.config = w.trail.config := by rw [ho.trail]; rfl
  have hplace : ∀ p, w'.site.disk.place p = w.site.disk.place p := Disk.place_eq_of_cwd (by rw [ho.disk]; rfl)
  have hdirectories : w.site.disk.HasDirectories w'.site.disk := by
    rw [ho.disk]
    exact Disk.hasDirectories_create _ ho.nothing
  refine ⟨?_, ⟨?_, ?_⟩, ?_, ?_, ?_, ?_, ?_⟩
  · rw [ho.clock]
    exact hascends
  · exact List.pairwise_cons.2 ⟨h.past, h.successive.sorted⟩
  · exact List.forall_mem_cons.2 ⟨h.clock.year _ List.mem_cons_self, h.successive.year⟩
  · rw [ho.clock]
    exact List.forall_mem_cons.2 ⟨hforward, fun m hm => Nat.le_trans (h.past m hm) hforward⟩
  · rw [ho.openings, hconfig, numbered, List.map_append, h.opened, List.reverse_cons, List.map_append]
    rfl
  · rw [ho.openings]
    intro o hmem
    rcases List.mem_append.1 hmem with hmem | hmem
    · obtain ⟨f, hf, hserial⟩ := h.there o hmem
      obtain ⟨l', hl', hn⟩ := Disk.stat_eq_ok.1 hf
      exact ⟨f, Disk.stat_eq_ok.2 ⟨l', hdirectories.locate hl', ho.node?_of_some hn⟩, hserial⟩
    · rw [List.mem_singleton.1 hmem]
      refine ⟨⟨w.site.disk.nextSerial, [], w.site.disk.time, fileMode⟩,
        Disk.stat_eq_ok.2 ⟨l, hdirectories.locate ho.place, ?_⟩, rfl⟩
      rw [ho.disk, Disk.node?_create, if_pos rfl]
  · intro n hn hnew
    rw [numbered, List.mem_cons, not_or] at hnew
    have hne : w.site.disk.place w.trail.config.dir ++ [n] ≠ l := by
      rw [Disk.eq_place_child (logName_ne_dots _ _) ho.place]
      exact fun heq => hnew.1 (List.singleton_inj.1 (List.append_cancel_left heq))
    rw [hconfig, hplace, ho.disk, Disk.node?_create, if_neg hne]
    exact h.others n hn hnew.2
  · intro n hn q hq
    rw [hconfig, hplace, hplace]
    rw [hconfig] at hq
    exact h.outside n hn q hq

theorem OpenedAt.moves (h : OpenedAt w ms) (hm : Moves w w') : ∃ ms', OpenedAt w' ms' := by
  induction hm with
  | refl => exact ⟨ms, h⟩
  | tail _ hmove ih =>
    obtain ⟨ms', h'⟩ := ih
    cases hmove with
    | writes hw => exact ⟨ms', h'.writes hw⟩
    | opens k l ho => exact ⟨_, h'.opens ho⟩

end Steps

/-- In a turn others leave the disk alone, the clock does not go back, and there is no cleanup. -/
structure Proceeds (t : Turn Call) (w : World) : Prop where
  disk : ∃ time, (t.meanwhile w.site).disk = { w.site.disk with time }
  clock : w.site.clock.Ascends →
    (t.meanwhile w.site).clock.Ascends ∧ w.site.clock.now.micros ≤ (t.meanwhile w.site).clock.now.micros
  call : ∀ now, t.call ≠ .cleanup now

/-- So it is when nothing happens between the calls. -/
theorem proceeds_of_idle (calls : List Call) (h : ∀ c ∈ calls, ∀ now, c ≠ .cleanup now) (w : World) :
    Each Call.act Proceeds (calls.map (.mk id)) w := by
  induction calls generalizing w with
  | nil => trivial
  | cons c rest ih =>
    exact ⟨⟨⟨w.site.disk.time, rfl⟩, fun hascends => ⟨hascends, Nat.le_refl _⟩, h c List.mem_cons_self⟩,
      ih (fun d hd => h d (List.mem_cons_of_mem c hd)) _⟩

section Runs
variable {w : World} {ms : List Moment} {t : Turn Call}

theorem openedAt_unused {c : Config.AuditSettings} {waits : Bool} {site : Site} {secrets : Secrets.Resolver}
    (clock : site.clock.Ascends) (vacant : Vacant site.disk c.dir) : OpenedAt (unused c waits site secrets) [] where
  clock := clock
  successive := ⟨.nil, fun _ hm => absurd hm List.not_mem_nil⟩
  past _ hm := absurd hm List.not_mem_nil
  opened := rfl
  there _ ho := absurd ho List.not_mem_nil
  others n hn _ := vacant.nothing n hn
  outside := vacant.outside

theorem OpenedAt.before (h : OpenedAt w ms) (proceeds : Proceeds t w) : OpenedAt (t.before w) ms := by
  obtain ⟨time, hdisk⟩ := proceeds.disk
  obtain ⟨hascends, hforward⟩ := proceeds.clock h.clock
  refine ⟨hascends, h.successive, fun m hm => Nat.le_trans (h.past m hm) hforward, h.opened, ?_, ?_, ?_⟩
  · rw [Turn.before, hdisk]
    exact h.there
  · rw [Turn.before, hdisk]
    exact h.others
  · rw [Turn.before, hdisk]
    exact h.outside

theorem OpenedAt.turn (h : ∃ ms, OpenedAt w ms) (proceeds : Proceeds t w) : ∃ ms, OpenedAt (t.take Call.act w) ms := by
  obtain ⟨ms, h⟩ := h
  exact (h.before proceeds).moves (Call.moves proceeds.call (t.before w))

/-- Through such a run the files have the names of the instants at which they were opened. -/
theorem openedAt_run {c : Config.AuditSettings} {waits : Bool} {site : Site} {secrets : Secrets.Resolver}
    {turns : List (Turn Call)} (clock : site.clock.Ascends) (vacant : Vacant site.disk c.dir)
    (proceeds : Each Call.act Proceeds turns (unused c waits site secrets)) :
    ∃ ms, OpenedAt (run Call.act turns (unused c waits site secrets)) ms :=
  run_each (P := fun w => ∃ ms, OpenedAt w ms) Call.act (fun _ _ hproceeds hw => OpenedAt.turn hw hproceeds) proceeds
    ⟨[], openedAt_unused clock vacant⟩

theorem Proceeds.undisturbed (proceeds : Proceeds t w) : Undisturbed w (t.meanwhile w.site) := by
  obtain ⟨time, hdisk⟩ := proceeds.disk
  refine ⟨?_, fun l f hf _ => ⟨l, ?_⟩⟩
  · rw [hdisk]
  · rw [hdisk] at hf
    exact hf

end Runs

section Listed
variable {w : World} {ms : List Moment}

/-- The files are listed in the order in which they were opened. -/
def InOrder (w : World) : Prop := logFiles.result w = .ok ((openingsIn w.trail.history).map Prod.fst)

/-- The files of the directory are those that were opened. -/
theorem OpenedAt.isLogFile_iff (h : OpenedAt w ms) (n : Text) :
    (∃ f, IsLogFile w.site.disk w.trail.config.dir n f) ↔ n ∈ numbered ms := by
  constructor
  · rintro ⟨f, hn, hf⟩
    obtain ⟨l, hl, hx⟩ := Disk.stat_eq_ok.1 hf
    exact h.mem_of_there hn hl hx
  · intro hn
    obtain ⟨f, hf⟩ := h.stat_of_mem hn
    obtain ⟨m, i, -, rfl⟩ := mem_numbered.1 hn
    exact ⟨f, isLogName_logName m i, hf⟩

/-- A directory with a file of the trail can be listed. -/
theorem OpenedAt.list_ok (h : OpenedAt w ms) {n : Text} (hn : n ∈ numbered ms) :
    ∃ ps, list w.site.disk w.trail.config.dir = .ok ps := by
  obtain ⟨f, hf⟩ := (h.isLogFile_iff n).2 hn
  refine Audit.list_ok hf fun l m hl hm hmem => ?_
  obtain ⟨x, hx⟩ := Disk.mem_names.1 hmem
  have hnumbered : m ∈ numbered ms := by
    by_contra hnot
    rw [Disk.eq_place_of_locate hl, h.others m hm hnot] at hx
    cases hx
  obtain ⟨g, hg⟩ := h.stat_of_mem hnumbered
  exact ⟨true, Disk.isFile_iff.2 ⟨g, hg⟩⟩

/-- They are listed in the order of their names. -/
theorem OpenedAt.listed (h : OpenedAt w ms) :
    ∃ names, logFiles.result w = .ok (names.map w.trail.config.dir.child) ∧
      Lists w.site.disk w.trail.config.dir names := by
  cases hl : list w.site.disk w.trail.config.dir with
  | ok ps =>
    obtain ⟨names, rfl, hnames⟩ := list_spec hl
    exact ⟨names, result_of_ok (logFiles_of_ok hl), hnames⟩
  | error e =>
    obtain ⟨w', hrun, -⟩ := logFiles_of_error hl
    refine ⟨[], result_of_ok hrun, .nil, .nil, fun n => iff_of_false List.not_mem_nil ?_⟩
    rw [h.isLogFile_iff]
    intro hn
    obtain ⟨ps, hps⟩ := h.list_ok hn
    rw [hl] at hps
    cases hps

/-- The order is that of the openings just when no more than ten files were opened at any instant. -/
theorem OpenedAt.inOrder_iff (h : OpenedAt w ms) : InOrder w ↔ ∀ m, ms.count m ≤ 10 := by
  obtain ⟨names, hrun, hnames⟩ := h.listed
  rw [← ordered_numbered_iff h.successive, InOrder, h.opened, hrun]
  constructor
  · intro heq
    injection heq with heq
    rw [← List.map_injective_iff.2 (child_injective _) heq]
    exact hnames.ordered
  · intro hordered
    have hlists : Lists w.site.disk w.trail.config.dir (numbered ms).reverse := by
      refine ⟨hordered, List.nodup_reverse.2 (nodup_numbered h.successive), fun n => ?_⟩
      rw [List.mem_reverse, h.isLogFile_iff]
    rw [hnames.eq hlists]

/-- They are out of order once an eleventh file was opened at some instant. -/
theorem OpenedAt.not_inOrder (h : OpenedAt w ms) {m : Moment} (hm : 1000 ≤ m.date.year)
    (heleventh : logPath w.trail.config.dir m 10 ∈ (openingsIn w.trail.history).map Prod.fst) : ¬InOrder w := by
  intro hinorder
  rw [h.opened, List.mem_map] at heleventh
  obtain ⟨n, hn, hpath⟩ := heleventh
  have hname : n = logName m 10 := child_injective _ hpath
  rw [List.mem_reverse, hname, logName_mem_numbered h.successive hm] at hn
  have := h.inOrder_iff.1 hinorder m
  omega

end Listed

section Reading
variable {w : World} {ms : List Moment}

def readAll (d : Disk) : List Path → Except Failure Bytes
  | [] => .ok []
  | p :: rest => do
    let first ← d.read p
    let others ← readAll d rest
    return first ++ others

private theorem readAll_map {d : Disk} {α : Type} {path : α → Path} {content : α → Bytes} {l : List α}
    (h : ∀ a ∈ l, d.read (path a) = .ok (content a)) : readAll d (l.map path) = .ok (l.flatMap content) := by
  induction l with
  | nil => rfl
  | cons a rest ih =>
    rw [List.map_cons, readAll, h a List.mem_cons_self, ih fun b hb => h b (List.mem_cons_of_mem a hb)]
    rfl

private theorem linesIn_eq (h : List Deed) : linesIn h = (writesIn h).map Prod.snd := by
  rw [writesIn, List.map_filterMap, linesIn]
  congr 1
  funext deed
  cases deed <;> rfl

/-- Read in the order in which they were opened, the files give the lines in the order in which they were written. -/
theorem OpenedAt.readAll (h : OpenedAt w ms) (filed : Filed (w.archive none)) :
    readAll w.site.disk ((openingsIn w.trail.history).map Prod.fst) =
      .ok ((linesIn w.trail.history).flatMap lineBytes) := by
  have hread : ∀ o ∈ openingsIn w.trail.history,
      w.site.disk.read o.1 = .ok ((linesTo o.2 w.trail.history).flatMap lineBytes) := by
    intro o ho
    obtain ⟨f, hf, hserial⟩ := h.there o ho
    obtain ⟨l, -, hn⟩ := Disk.stat_eq_ok.1 hf
    have hopened : f.serial ∈ openedIn w.trail.history := by
      rw [openedIn_eq, hserial]
      exact List.mem_map_of_mem ho
    have hcontent : f.content = (linesTo f.serial w.trail.history).flatMap lineBytes := filed.content l f hn hopened
    rw [Disk.read, hf, ← hserial, ← hcontent]
    rfl
  have horder : (openedIn w.trail.history).flatMap (linesTo · w.trail.history) = linesIn w.trail.history := filed.order
  rw [readAll_map hread, ← horder, openedIn_eq, List.flatMap_assoc, List.flatMap_map]

theorem written_in_order (h : Traced (w.archive none)) :
    ∃ es, es.Sublist (queuedIn w.trail.history) ∧
      List.Forall₂ (fun e line => e.json = .ok line) es (linesIn w.trail.history) := by
  obtain ⟨written, hlines, hsub⟩ := h
  refine ⟨written.map Prod.snd, (List.sublist_append_left _ _).trans hsub, ?_⟩
  rw [linesIn_eq, List.forall₂_map_left_iff, List.forall₂_map_right_iff]
  exact hlines.imp fun _ _ hwritten => hwritten.2

end Reading

/-- A trail that finds no file of a trail in its directory, under a clock that does not go back, and without a cleanup:
its files are listed in the order in which they were opened exactly when no more than ten of them were opened at any one
instant. In the order in which they were opened they are read as the lines of the entries that were written, and these
are in the order of the queue. -/
theorem listed_in_order_iff (c : Config.AuditSettings) (waits : Bool) {site : Site} (secrets : Secrets.Resolver)
    {turns : List (Turn Call)} (clock : site.clock.Ascends) (vacant : Vacant site.disk c.dir)
    (proceeds : Each Call.act Proceeds turns (unused c waits site secrets)) :
    let w := run Call.act turns (unused c waits site secrets)
    let h := w.trail.history
    (∃ ms, Successive ms ∧ (openingsIn h).map Prod.fst = (numbered ms).reverse.map c.dir.child ∧
      (InOrder w ↔ ∀ m, ms.count m ≤ 10)) ∧
    readAll w.site.disk ((openingsIn h).map Prod.fst) = .ok ((linesIn h).flatMap lineBytes) ∧
    ∃ es, es.Sublist (queuedIn h) ∧ List.Forall₂ (fun e line => e.json = .ok line) es (linesIn h) := by
  intro w h
  obtain ⟨ms, hopened⟩ : ∃ ms, OpenedAt w ms := openedAt_run clock vacant proceeds
  have hconfig : w.trail.config = c := run_config turns _
  have alone : Alone turns (unused c waits site secrets) :=
    Each.imp Call.act (fun _ _ hproceeds => Proceeds.undisturbed hproceeds) proceeds
  refine ⟨⟨ms, hopened.successive, ?_, hopened.inOrder_iff⟩, hopened.readAll (run_filed_alone alone),
    written_in_order (run_traced turns)⟩
  rw [← hconfig]
  exact hopened.opened

/-- A trail with a limit of one byte, an empty directory, and a clock that stands still at the first of June 2025. -/
def juneTrail : World :=
  unused { dir := .ofText "audit", maxSize := 0.000001 } true
    { bareSite with
      disk := (Disk.empty "work" 0).placeDirectory ["work", "audit"] directoryMode
      clock := (⟨739402 * microsPerDay, by decide⟩ : Moment) } { config := {} }

def juneCalls (n : Nat) : List Call :=
  let report (i : Nat) : Report :=
    { event := .text "SYSTEM", action := .text "CREATE", details := .text (Text.ofNat i), result := .text "SUCCESS" }
  .start :: ((List.range n).map fun i => .log (report i)) ++ [.flush]

def juneTurns (n : Nat) : List (Turn Call) := (juneCalls n).map (.mk id)

theorem proceeds_june (n : Nat) : Each Call.act Proceeds (juneTurns n) juneTrail := by
  refine proceeds_of_idle (juneCalls n) ?_ juneTrail
  rintro call hc now rfl
  simp [juneCalls] at hc

theorem ascends_june : juneTrail.site.clock.Ascends := by
  refine ⟨List.pairwise_singleton _ _, fun m hm => ?_⟩
  rw [List.mem_singleton.1 hm]
  decide +kernel

theorem vacant_june : Vacant juneTrail.site.disk juneTrail.trail.config.dir :=
  vacant_of_empty (l := ["work", "audit"]) (by decide +kernel) (by decide +kernel)

/-- Three files of one instant are in order. -/
theorem listed_in_order_of_three :
    let w := run Call.act (juneTurns 2) juneTrail
    let paths := ["audit_2025-06-01_000000_000000.log", "audit_2025-06-01_000000_000000_1.log",
      "audit_2025-06-01_000000_000000_2.log"].map fun n => juneTrail.trail.config.dir.child (Text.ofString n)
    juneTrail.site.clock.Ascends ∧ Vacant juneTrail.site.disk juneTrail.trail.config.dir ∧
    Each Call.act Proceeds (juneTurns 2) juneTrail ∧
    logFiles.result w = .ok paths ∧ readAll w.site.disk paths = .ok ((linesIn w.trail.history).flatMap lineBytes) := by
  intro w paths
  obtain ⟨⟨ms, -, hnumbered, hiff⟩, hread, -⟩ :=
    listed_in_order_iff juneTrail.trail.config true { config := {} } ascends_june vacant_june (proceeds_june 2)
  have hopened : (openingsIn w.trail.history).map Prod.fst = paths := by decide +kernel
  have hlength := congrArg List.length (hopened.symm.trans hnumbered)
  rw [List.length_map, List.length_map, List.length_reverse, length_numbered] at hlength
  have hinorder : InOrder w := hiff.2 fun m => Nat.le_trans List.count_le_length (hlength ▸ by decide)
  exact ⟨ascends_june, vacant_june, proceeds_june 2, hinorder.trans (congrArg Except.ok hopened), hopened ▸ hread⟩

/-- Of eleven files of one instant the last one is listed before the third. -/
theorem not_listed_in_order :
    juneTrail.site.clock.Ascends ∧ Vacant juneTrail.site.disk juneTrail.trail.config.dir ∧
    Each Call.act Proceeds (juneTurns 10) juneTrail ∧ ¬InOrder (run Call.act (juneTurns 10) juneTrail) := by
  refine ⟨ascends_june, vacant_june, proceeds_june 10, ?_⟩
  obtain ⟨ms, hms⟩ := openedAt_run ascends_june vacant_june (proceeds_june 10)
  refine hms.not_inOrder (m := juneTrail.site.clock.now) (ascends_june.year _ List.mem_cons_self) ?_
  decide +kernel

end Audit

end Custody
