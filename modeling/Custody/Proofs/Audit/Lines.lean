import Custody.Proofs.Audit.Rotation
import Custody.Proofs.Data.Json.RoundTrip
import Custody.Proofs.Text.Utf8

/-! The lines of a trail are faithful: each is read back as the fields of its entry, and a file is nothing but the lines
of the entries that were written to it. -/
namespace Custody

theorem Text.Plain.isScalar {t : Text} (h : t.Plain) : t.isScalar = true := by
  rw [Text.isScalar, List.all_eq_true]
  intro c hc
  have hlt := (h c hc).2
  simp only [CodePoint.isSurrogate, Bool.not_eq_true', Bool.and_eq_false_iff, decide_eq_false_iff_not]
  omega

theorem Text.Plain.no_line_feed {t : Text} (h : t.Plain) : ('\n' : CodePoint) ∉ t := by
  intro hm
  exact absurd (h _ hm) (by decide)

namespace Audit
open Act Archive

section Entries
variable {e : Entry}

/-- Whether a value is a text without surrogates. -/
def isText : Value → Bool
  | .text t => t.isScalar
  | _ => false

def isOptionalText : Value → Bool
  | .null => true
  | v => isText v

/-- An entry made of texts without surrogates, user and resource being optional. Its metadata are a dictionary. -/
@[mk_iff]
structure Entry.Textual (e : Entry) : Prop where
  details : isText e.details = true
  user : isOptionalText e.user = true
  resource : isOptionalText e.resource = true
  names : (e.metadata.map Prod.fst).Nodup
  metadata : ∀ m ∈ e.metadata, m.1.isScalar = true ∧ m.2.isScalar = true

instance (e : Entry) : Decidable e.Textual := decidable_of_iff' _ (Entry.textual_iff e)

theorem plain_isoMillis (m : Moment) : m.isoMillis.Plain := by
  have htwo : ∀ n, (Moment.two n).Plain := fun n => .ofNatPadded 2 n
  have hdate : (Moment.monthDay m.date).Plain :=
    .append (.append (.append (by decide) (htwo _)) (by decide)) (htwo _)
  have htime : (m.timeOfDay ":").Plain :=
    .append (.append (.append (.append (htwo _) (by decide)) (htwo _)) (by decide)) (htwo _)
  have hday : (Text.ofNat m.date.year ++ Moment.monthDay m.date ++ "T" ++ m.timeOfDay ":").Plain :=
    .append (.append (.append (.ofNat _) hdate) (by decide)) htime
  exact .append (.append (.append hday (by decide)) (.ofNatPadded 3 _)) (by decide)

theorem isScalar_label_event (w : Event) : (Text.ofString (label w)).isScalar = true := by
  cases w <;> decide

theorem isScalar_label_action (w : Action) : (Text.ofString (label w)).isScalar = true := by
  cases w <;> decide

theorem isScalar_label_outcome (w : Outcome) : (Text.ofString (label w)).isScalar = true := by
  cases w <;> decide

theorem textual_of_isText {v : Value} (h : isText v = true) : v.Textual := by
  cases v with
  | text t => exact .text h
  | _ => cases h

/-- The names that an entry can have, in their order. -/
def fieldNames : List Text :=
  ["timestamp", "event", "action", "result", "details", "user", "resource", "metadata"]

theorem map_fst_present (name : Text) (v : Value) : ((Entry.present name v).map Prod.fst).Sublist [name] := by
  cases v with
  | null => exact List.nil_sublist _
  | _ => exact List.Sublist.refl _

private theorem textual_present {name : Text} {v : Value} (h : isOptionalText v = true) :
    ∀ f ∈ Entry.present name v, f.2.Textual := by
  intro f hf
  cases v with
  | null => exact absurd hf List.not_mem_nil
  | text t =>
    rw [List.mem_singleton.1 hf]
    exact .text h
  | _ => cases h

private theorem textual_metadata {m : List (Text × Text)} (names : (m.map Prod.fst).Nodup)
    (scalar : ∀ f ∈ m, f.1.isScalar = true ∧ f.2.isScalar = true) :
    (Value.record (m.map fun f => (f.1, .text f.2))).Textual := by
  refine .record ?_ ?_ ?_
  · rw [List.map_map]
    exact names
  · intro f hf
    obtain ⟨g, hg, rfl⟩ := List.mem_map.1 hf
    exact (scalar g hg).1
  · intro f hf
    obtain ⟨g, hg, rfl⟩ := List.mem_map.1 hf
    exact .text (scalar g hg).2

/-- The fields of such an entry are texts, and no name stands for two of them. -/
theorem Entry.Textual.fields (he : e.Textual) {fields : List (Text × Value)} (h : e.fields = .ok fields) :
    (Value.record fields).Textual := by
  obtain ⟨m, -, h⟩ := Failure.bind_eq_ok.1 h
  have hmeta : ((if e.metadata = [] then [] else
      [Value.field "metadata" (.record (e.metadata.map fun f => (f.1, .text f.2)))]).map Prod.fst).Sublist
        ["metadata"] := by
    split
    · exact List.nil_sublist _
    · exact List.Sublist.refl _
  have hsub : (fields.map Prod.fst).Sublist fieldNames := by
    cases h
    rw [List.map_append, List.map_append, List.map_append]
    have hfixed : ([Value.field "timestamp" (.text m.isoMillis), Value.field "event" (.text (label e.event)),
        Value.field "action" (.text (label e.action)), Value.field "result" (.text (label e.result)),
        Value.field "details" e.details].map Prod.fst).Sublist
          ["timestamp", "event", "action", "result", "details"] := List.Sublist.refl _
    exact ((hfixed.append (map_fst_present _ _)).append (map_fst_present _ _)).append hmeta
  have hnodup : fieldNames.Nodup := by decide
  have hscalar : ∀ n ∈ fieldNames, n.isScalar = true := by decide
  refine .record (hnodup.sublist hsub) (fun f hf => hscalar _ (hsub.subset (List.mem_map_of_mem hf))) fun f hf => ?_
  cases h
  rcases List.mem_append.1 hf with hf | hf
  · rcases List.mem_append.1 hf with hf | hf
    · rcases List.mem_append.1 hf with hf | hf
      · simp only [List.mem_cons, List.not_mem_nil, or_false] at hf
        rcases hf with rfl | rfl | rfl | rfl | rfl
        · exact .text (plain_isoMillis m).isScalar
        · exact .text (isScalar_label_event _)
        · exact .text (isScalar_label_action _)
        · exact .text (isScalar_label_outcome _)
        · exact textual_of_isText he.details
      · exact textual_present he.user f hf
    · exact textual_present he.resource f hf
  · split at hf
    · exact absurd hf List.not_mem_nil
    · rw [List.mem_singleton.1 hf]
      exact textual_metadata he.names he.metadata

theorem Entry.json_eq_ok {line : Text} :
    e.json = .ok line ↔ ∃ fields, e.fields = .ok fields ∧ Json.write (.record fields) = .ok line :=
  Failure.bind_eq_ok

/-- The line of such an entry is printable ASCII, and it is read back as the fields of the entry. -/
theorem Entry.Textual.json (he : e.Textual) {fields : List (Text × Value)} (h : e.fields = .ok fields) :
    ∃ line, e.json = .ok line ∧ line.Plain ∧ Json.read? line = some (.record fields) := by
  obtain ⟨line, hw, hread⟩ := Json.read?_write (he.fields h)
  exact ⟨line, Entry.json_eq_ok.2 ⟨fields, h, hw⟩, Json.plain_write hw, hread⟩

theorem Entry.Textual.read_json (he : e.Textual) {line : Text} (h : e.json = .ok line) :
    ∃ fields, e.fields = .ok fields ∧ line.Plain ∧ Json.read? line = some (.record fields) := by
  obtain ⟨fields, hf, hw⟩ := Entry.json_eq_ok.1 h
  obtain ⟨line', hw', hread⟩ := Json.read?_write (he.fields hf)
  rw [hw, Except.ok.injEq] at hw'
  exact ⟨fields, hf, Json.plain_write hw, hw' ▸ hread⟩

end Entries

section Written
variable {a b : Archive}

/-- The lines that were written, each with the file that it went to. -/
def writesIn (h : List Deed) : List (Nat × Text) :=
  h.filterMap fun
    | .wrote serial line => some (serial, line)
    | _ => none

@[simp]
theorem writesIn_concat (h : List Deed) (d : Deed) : writesIn (h ++ [d]) = writesIn h ++ writesIn [d] :=
  List.filterMap_append

def sentTo {α : Type} (serial : Nat) (l : List (Nat × α)) : List α := (l.filter (·.1 = serial)).map Prod.snd

theorem sentTo_writesIn (serial : Nat) (h : List Deed) : sentTo serial (writesIn h) = linesTo serial h := by
  induction h with
  | nil => rfl
  | cons d h ih =>
    have hcons : writesIn (d :: h) = writesIn [d] ++ writesIn h := List.filterMap_append (l := [d])
    have hlines : linesTo serial (d :: h) = linesTo serial [d] ++ linesTo serial h := List.filterMap_append (l := [d])
    rw [hcons, hlines, ← ih, sentTo, List.filter_append, List.map_append]
    congr 1
    cases d with
    | wrote s line => by_cases hs : s = serial <;> simp [writesIn, linesTo, hs]
    | _ => rfl

def WrittenAs (entry : Nat × Entry) (line : Nat × Text) : Prop := entry.1 = line.1 ∧ entry.2.json = .ok line.2

theorem forall₂_sentTo {written : List (Nat × Entry)} {lines : List (Nat × Text)}
    (h : List.Forall₂ WrittenAs written lines) (serial : Nat) :
    List.Forall₂ (fun e line => e.json = .ok line) (sentTo serial written) (sentTo serial lines) := by
  induction h with
  | nil => exact .nil
  | @cons e line _ _ hfirst _ ih =>
    by_cases hs : line.1 = serial
    · have he : e.1 = serial := hfirst.1.trans hs
      rw [sentTo, sentTo, List.filter_cons_of_pos (by simpa using he), List.filter_cons_of_pos (by simpa using hs)]
      exact .cons hfirst.2 ih
    · have he : e.1 ≠ serial := fun he => hs (hfirst.1.symm.trans he)
      rw [sentTo, sentTo, List.filter_cons_of_neg (by simpa using he), List.filter_cons_of_neg (by simpa using hs)]
      exact ih

/-- Lines are written for entries of the queue alone, one for each, and in the order of the queue. -/
def Archive.Traced (a : Archive) : Prop :=
  ∃ written, List.Forall₂ WrittenAs written (writesIn a.trail.history) ∧
    (written.map Prod.snd ++ (a.hand.toList ++ a.trail.queue)).Sublist (queuedIn a.trail.history)

theorem Archive.Traced.step (h : a.Step b) (ha : a.Traced) : b.Traced := by
  obtain ⟨written, hlines, hsub⟩ := ha
  -- A deed that is no line leaves the entries that wait as they are.
  have silent {t t' : Trail} {d' : Disk} {hand : Option Entry} {deed : Deed}
      (hlines : List.Forall₂ WrittenAs written (writesIn t.history))
      (hsub : (written.map Prod.snd ++ (hand.toList ++ t.queue)).Sublist (queuedIn t.history))
      (journal : t'.journal = deed :: t.journal) (writes : writesIn [deed] = []) (queued : queuedIn [deed] = [])
      (queue : t'.queue = t.queue) : Traced ⟨t', d', hand⟩ := by
    refine ⟨written, ?_, ?_⟩
    · rw [history_note journal, writesIn_concat, writes, List.append_nil]
      exact hlines
    · rw [history_note journal, queuedIn_concat, queued, List.append_nil, queue]
      exact hsub
  have dropped {t : Trail} {e : Entry} (hsub : (written.map Prod.snd ++ ((some e).toList ++ t.queue)).Sublist
      (queuedIn t.history)) : (written.map Prod.snd ++ t.queue).Sublist (queuedIn t.history) :=
    ((List.Sublist.refl _).append (List.sublist_append_right _ _)).trans hsub
  cases h with
  | turned => exact ⟨written, hlines, hsub⟩
  | served => exact ⟨written, hlines, hsub⟩
  | untimed => exact ⟨written, hlines, hsub⟩
  | prepared => exact ⟨written, hlines, hsub⟩
  | removed => exact ⟨written, hlines, hsub⟩
  | closed => exact ⟨written, hlines, hsub⟩
  | lost => exact ⟨written, hlines, dropped hsub⟩
  | opened => exact silent hlines hsub rfl rfl rfl rfl
  | rejected => exact silent hlines hsub rfl rfl rfl rfl
  | discarded e =>
    have hnone := dropped hsub
    rw [← List.nil_append (Trail.queue _)] at hnone
    exact silent hlines hnone rfl rfl rfl rfl
  | took e rest hqueue =>
    refine ⟨written, hlines, ?_⟩
    rw [hqueue] at hsub
    exact hsub
  | @queued t d hand r now e he =>
    refine ⟨written, ?_, ?_⟩
    · rw [history_note (t := t) rfl, writesIn_concat]
      exact (List.append_nil (writesIn _)).symm ▸ hlines
    · rw [history_note (t := t) rfl, queuedIn_concat]
      have hmore : ((written.map Prod.snd ++ (hand.toList ++ t.queue)) ++ [e]).Sublist (queuedIn t.history ++ [e]) :=
        hsub.append (List.Sublist.refl [e])
      rw [List.append_assoc, List.append_assoc] at hmore
      exact hmore
  | @wrote t d e s line hj =>
    refine ⟨written ++ [(s.serial, e)], ?_, ?_⟩
    · rw [history_note (t := t) rfl, writesIn_concat]
      exact List.rel_append hlines (.cons ⟨rfl, hj⟩ .nil)
    · rw [history_note (t := t) rfl, queuedIn_concat, List.map_append, List.append_assoc]
      exact (List.append_nil (queuedIn t.history)).symm ▸ hsub

/-- An entry can be read from a line: the line is printable ASCII, and it is read back as the fields of the entry. -/
def Entry.ReadFrom (e : Entry) (line : Text) : Prop :=
  ∃ fields, e.fields = .ok fields ∧ line.Plain ∧ Json.read? line = some (.record fields)

theorem Entry.ReadFrom.plain {e : Entry} {line : Text} (h : e.ReadFrom line) : line.Plain := by
  obtain ⟨_, -, hplain, -⟩ := h
  exact hplain

/-- The bytes of lines are read as the lines, each with its line feed. -/
theorem decode?_lines {lines : List Text} (h : ∀ line ∈ lines, line.Plain) :
    Utf8.decode? (lines.flatMap lineBytes) = some (lines.flatMap (· ++ [('\n' : CodePoint)])) := by
  have hbytes : lines.flatMap lineBytes = (lines.flatMap (· ++ [('\n' : CodePoint)])).flatMap Utf8.encodePoint :=
    List.flatMap_assoc.symm
  rw [hbytes]
  refine Utf8.decode?_encode (List.all_eq_true.2 fun c hc => ?_)
  obtain ⟨line, hline, hc⟩ := List.mem_flatMap.1 hc
  rcases List.mem_append.1 hc with hc | hc
  · exact List.all_eq_true.1 (h line hline).isScalar c hc
  · rw [List.mem_singleton.1 hc]
    rfl

variable {c : Config.AuditSettings} {waits : Bool} {site : Site} {secrets : Secrets.Resolver}

theorem run_traced (turns : List (Turn Call)) :
    Traced ((run Call.act turns (unused c waits site secrets)).archive none) :=
  run_keeps Traced.step (fun _ _ _ h => h) ⟨[], .nil, List.Sublist.refl _⟩

/-- In every turn others leave the files of the trail as they are. -/
def Alone (turns : List (Turn Call)) (w : World) : Prop :=
  Each Call.act (fun t w => Undisturbed w (t.meanwhile w.site)) turns w

theorem run_filed_alone {turns : List (Turn Call)} (alone : Alone turns (unused c waits site secrets)) :
    Filed ((run Call.act turns (unused c waits site secrets)).archive none) :=
  run_each (P := fun w => Filed (w.archive none)) Call.act (fun t w alone filed =>
    (t.call.comes (t.before w)).steps.keep Filed.step (filed_before filed alone)) alone filed_unused

end Written

/-- Entries made of texts are faithfully written: the line of an entry stands for it, so that entries with different
fields have different lines; and in whatever order reports come, a file that holds entries of such a trail is one line
after the other, each standing for the entry that was written there. -/
theorem lines_are_faithful :
    (∀ e : Entry, e.Textual →
      (∀ fields, e.fields = .ok fields →
        ∃ line, e.json = .ok line ∧ line.Plain ∧ Json.read? line = some (.record fields)) ∧
      ∀ f, e.fields = .error f → e.json = .error f) ∧
    (∀ e e' : Entry, e.Textual → e'.Textual → ∀ line, e.json = .ok line → e'.json = .ok line → e.fields = e'.fields) ∧
    ∀ (c : Config.AuditSettings) (waits : Bool) (site : Site) (secrets : Secrets.Resolver) (turns : List (Turn Call)),
      Alone turns (unused c waits site secrets) →
      let w := run Call.act turns (unused c waits site secrets)
      let h := w.trail.history
      (∀ e ∈ queuedIn h, e.Textual) →
      ∃ written, List.Forall₂ WrittenAs written (writesIn h) ∧ (written.map Prod.snd).Sublist (queuedIn h) ∧
        ∀ l f, w.site.disk.node? l = some (.file f) → f.serial ∈ openedIn h →
          ∃ text lines, Utf8.decode? f.content = some text ∧ Text.splitOn '\n' text = lines ++ [[]] ∧
            List.Forall₂ Entry.ReadFrom (sentTo f.serial written) lines := by
  refine ⟨fun e he => ⟨fun fields hf => he.json hf, fun f hf => ?_⟩, ?_, ?_⟩
  · rw [Entry.json, hf]
    rfl
  · intro e e' he he' line hj hj'
    obtain ⟨fields, hf, -, hread⟩ := he.read_json hj
    obtain ⟨fields', hf', -, hread'⟩ := he'.read_json hj'
    rw [hread, Option.some.injEq, Value.record.injEq] at hread'
    rw [hf, hf', hread']
  · intro c waits site secrets turns alone w h textual
    have htraced : Traced (w.archive none) := run_traced turns
    obtain ⟨written, hlines, hsub⟩ := htraced
    have hqueued : (written.map Prod.snd).Sublist (queuedIn h) := (List.sublist_append_left _ _).trans hsub
    refine ⟨written, hlines, hqueued, fun l f hf hs => ?_⟩
    have hcontent : f.content = (linesTo f.serial h).flatMap lineBytes := (run_filed_alone alone).content l f hf hs
    have hread : List.Forall₂ Entry.ReadFrom (sentTo f.serial written) (linesTo f.serial h) := by
      rw [← sentTo_writesIn]
      have htextual : ∀ e ∈ sentTo f.serial written, e.Textual := fun e he =>
        textual e (hqueued.subset ((List.filter_sublist.map _).subset he))
      have hjson := (List.forall₂_and_left _ _).2 ⟨htextual, forall₂_sentTo hlines f.serial⟩
      exact hjson.imp fun e line he => he.1.read_json he.2
    have hplain : ∀ line ∈ linesTo f.serial h, line.Plain := by
      have hboth : List.Forall₂ (fun line e => line.Plain ∧ e.ReadFrom line) (linesTo f.serial h)
          (sentTo f.serial written) := (hread.imp fun _ _ he => And.intro he.plain he).flip
      exact ((List.forall₂_and_left _ _).1 hboth).1
    refine ⟨(linesTo f.serial h).flatMap (· ++ [('\n' : CodePoint)]), linesTo f.serial h, ?_, ?_, hread⟩
    · rw [hcontent]
      exact decode?_lines hplain
    · exact Text.splitOn_flatMap fun line hline => (hplain line hline).no_line_feed

/-- Two entries of a trail with small files, each in a file of its own: the second file is read back as the report that
was written there. -/
theorem lines_are_faithful_of_two_reports :
    let c : Config.AuditSettings := { maxSize := 0.0002 }
    let report : Report := .authentication (.text "ada") (.bool true) (.text "ß")
    let turns : List (Turn Call) := [⟨id, .start⟩, ⟨id, .log report⟩, ⟨id, .flush⟩]
    let w := run Call.act turns (unused c true bareSite { config := {} })
    let h := w.trail.history
    Alone turns (unused c true bareSite { config := {} }) ∧ (∀ e ∈ queuedIn h, e.Textual) ∧
      openedIn h = [0, 1] ∧
      ∃ written, List.Forall₂ WrittenAs written (writesIn h) ∧ (written.map Prod.snd).Sublist (queuedIn h) ∧
        ∃ l f text line, w.site.disk.node? l = some (.file f) ∧ f.serial = 1 ∧ Utf8.decode? f.content = some text ∧
          Text.splitOn '\n' text = [line, []] ∧ List.Forall₂ Entry.ReadFrom (sentTo 1 written) [line] := by
  intro c report turns w h
  have alone : Alone turns (unused c true bareSite { config := {} }) :=
    ⟨undisturbed_refl _, undisturbed_refl _, undisturbed_refl _, trivial⟩
  have textual : ∀ e ∈ queuedIn h, e.Textual := by decide +kernel
  have hopened : openedIn h = [0, 1] := by decide +kernel
  obtain ⟨written, hwritten, hsub, hread⟩ := lines_are_faithful.2.2 c true bareSite { config := {} } turns alone textual
  have hpieces : ((w.site.disk.fileOf? 1).bind fun f => Utf8.decode? f.content).map
      (fun text => (Text.splitOn '\n' text).length) = some 2 := by decide +kernel
  cases hfile : w.site.disk.fileOf? 1 with
  | none =>
    rw [hfile] at hpieces
    cases hpieces
  | some f =>
    obtain ⟨hserial, l, hnode⟩ := Disk.exists_of_fileOf? hfile
    have hmem : f.serial ∈ openedIn h := by
      rw [hopened, hserial]
      decide
    obtain ⟨text, lines, htext, hlines, hall⟩ := hread l f hnode hmem
    rw [hfile, Option.bind_some, htext, Option.map_some, hlines, List.length_append, List.length_singleton,
      Option.some.injEq] at hpieces
    obtain ⟨line, rfl⟩ := List.length_eq_one_iff.1 (by omega : lines.length = 1)
    exact ⟨alone, textual, hopened, written, hwritten, hsub, l, f, text, line, hnode, hserial, htext, hlines,
      hserial ▸ hall⟩

end Audit

end Custody
