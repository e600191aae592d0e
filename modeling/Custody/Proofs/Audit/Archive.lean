import Custody.Audit.Lifecycle
import Custody.Proofs.Storage.Changes
import Mathlib.Logic.Relation

/-! The single steps by which a trail and the disk under it change, and what their history tells. -/
namespace Custody.Audit

section History

/-- The deeds of a trail, the earliest first. -/
def Trail.history (t : Trail) : List Deed := t.journal.reverse

def queuedIn (h : List Deed) : List Entry :=
  h.filterMap fun
    | .queued e => some e
    | _ => none

def openedIn (h : List Deed) : List Nat :=
  h.filterMap fun
    | .opened _ serial => some serial
    | _ => none

def linesIn (h : List Deed) : List Text :=
  h.filterMap fun
    | .wrote _ line => some line
    | _ => none

def linesTo (serial : Nat) (h : List Deed) : List Text :=
  h.filterMap fun
    | .wrote s line => if s = serial then some line else none
    | _ => none

/-- The deeds that end the way of an entry. -/
def endingsIn (h : List Deed) : List Deed :=
  h.filter fun
    | .wrote _ _ | .discarded _ => true
    | _ => false

/-- How many entries were counted as lost. -/
def discardsIn (h : List Deed) : Nat :=
  h.countP fun
    | .discarded _ => true
    | _ => false

/-- How many reports made no entry. -/
def rejectionsIn (h : List Deed) : Nat :=
  h.countP fun
    | .rejected => true
    | _ => false

/-- An entry ends as the line that is written for it, or it is counted as lost. -/
inductive Deed.Ends (e : Entry) : Deed → Prop where
  | wrote (serial : Nat) (line : Text) (h : e.json = .ok line) : Ends e (.wrote serial line)
  | discarded : Ends e (.discarded e)

/-- The bytes that stand in a file for a line. -/
def lineBytes (line : Text) : Bytes := (line ++ "\n" : Text).flatMap Utf8.encodePoint

/-- Every ending is a line or a loss. -/
theorem length_endingsIn (h : List Deed) : (endingsIn h).length = (linesIn h).length + discardsIn h := by
  induction h with
  | nil => rfl
  | cons d h ih =>
    have hcons : ∀ (d : Deed), endingsIn (d :: h) = endingsIn [d] ++ endingsIn h := fun d =>
      List.filter_append [d] h
    cases d <;> simp_all [endingsIn, linesIn, discardsIn] <;> omega

end History

namespace Trail

def turn (p : Phase) (t : Trail) : Trail := { t with phase := p }

def serve (timer : Timer) (t : Trail) : Trail := { t with timer := some timer, phase := .running }

def timeless (t : Trail) : Trail := { t with timer := none }

def shut (t : Trail) : Trail := { t with stream := none }

def begin (p : Path) (serial : Nat) (t : Trail) : Trail :=
  { t with
    stream := some ⟨serial, false⟩
    current := some ⟨p, 0⟩
    journal := .opened p serial :: t.journal }

def enter (e : Entry) (t : Trail) : Trail := { t with queue := t.queue ++ [e], journal := .queued e :: t.journal }

def reject (t : Trail) : Trail := { t with dropped := t.dropped + 1, journal := .rejected :: t.journal }

def fill (serial : Nat) (line : Text) (t : Trail) : Trail :=
  { t with
    current := t.current.map fun f => { f with size := f.size + (lineBytes line).length }
    journal := .wrote serial line :: t.journal }

def drop (e : Entry) (t : Trail) : Trail :=
  { t with dropped := t.dropped + 1, journal := .discarded e :: t.journal }

end Trail

/-- A trail, the disk under it, and the entry that has been taken off the queue but has not ended yet. -/
structure Archive where
  trail : Trail
  disk : Disk
  hand : Option Entry

/-- The turns that the life of a trail can take, apart from the beginning of its service. -/
inductive Phase.Turns : Phase → Phase → Prop where
  | opening : Turns .fresh .opening
  | again : Turns .opening .fresh
  | giveUp : Turns .opening .closing
  | closing : Turns .running .closing
  | stopped : Turns .closing .stopped
  | never : Turns .fresh .stopped

theorem Phase.Turns.ne_running {p q : Phase} (h : p.Turns q) : q ≠ .running := by
  cases h <;> nofun

namespace Archive

/-- What can happen to a trail and its disk at once. -/
inductive Step : Archive → Archive → Prop where
  | turned {t d h} (p : Phase) (turn : t.phase.Turns p) : Step ⟨t, d, h⟩ ⟨t.turn p, d, h⟩
  | served {t d h} (timer : Timer) (timely : timer.stuck = false) (phase : t.phase = .opening)
      (stream : t.stream.isSome) (current : t.current.isSome) :
      Step ⟨t, d, h⟩ ⟨t.serve timer, d, h⟩
  | untimed {t d h} (phase : t.phase ≠ .running) : Step ⟨t, d, h⟩ ⟨t.timeless, d, h⟩
  | prepared {t d h} (d' : Disk) (prepares : d.Prepares d') : Step ⟨t, d, h⟩ ⟨t, d', h⟩
  | removed {t d h} (l : Location) : Step ⟨t, d, h⟩ ⟨t, d.keep fun k => k ≠ l, h⟩
  | closed {t d h} (idle : t.phase = .running → t.stream = none ∨ t.current = none ∨
      ∃ limit, t.config.maxBytes = .ok limit) : Step ⟨t, d, h⟩ ⟨t.shut, d, h⟩
  | opened {t d h} (p : Path) (l : Location) (stream : t.stream = none) (place : d.locate p = .ok l)
      (free : d.node? l = none) : Step ⟨t, d, h⟩ ⟨t.begin p d.nextSerial, d.create l fileMode, h⟩
  | queued {t d h} (r : Report) (now : Moment) (e : Entry) (entry : r.entry now = .ok e) :
      Step ⟨t, d, h⟩ ⟨t.enter e, d, h⟩
  | rejected {t d h} (phase : t.phase = .running) : Step ⟨t, d, h⟩ ⟨t.reject, d, h⟩
  | took {t d} (e : Entry) (rest : List Entry) (queue : t.queue = e :: rest) :
      Step ⟨t, d, none⟩ ⟨{ t with queue := rest }, d, some e⟩
  | wrote {t d} (e : Entry) (s : Stream) (line : Text) (json : e.json = .ok line)
      (stream : t.stream = some s) (phase : t.phase ≠ .stopped) :
      Step ⟨t, d, some e⟩ ⟨t.fill s.serial line, d.append s.serial (lineBytes line), none⟩
  | discarded {t d} (e : Entry) : Step ⟨t, d, some e⟩ ⟨t.drop e, d, none⟩
  | lost {t d} (e : Entry) (f : Failure) (grave : isLoss f = false)
      (cause : e.json = .error f ∨ t.config.maxBytes = .error f) : Step ⟨t, d, some e⟩ ⟨t, d, none⟩

def Steps : Archive → Archive → Prop := Relation.ReflTransGen Step

variable {a b c : Archive}

theorem Steps.refl (a : Archive) : a.Steps a := Relation.ReflTransGen.refl

theorem Step.steps (h : a.Step b) : a.Steps b := .single h

theorem Steps.trans (hab : a.Steps b) (hbc : b.Steps c) : a.Steps c := Relation.ReflTransGen.trans hab hbc

theorem Steps.keep {P : Archive → Prop} (step : ∀ {a b}, Step a b → P a → P b) (h : a.Steps b) (ha : P a) :
    P b := by
  induction h with
  | refl => exact ha
  | tail _ hs ih => exact step hs ih

theorem Step.config (h : a.Step b) : b.trail.config = a.trail.config := by
  cases h <;> rfl

theorem Steps.config (h : a.Steps b) : b.trail.config = a.trail.config := by
  induction h with
  | refl => rfl
  | tail _ hs ih => exact hs.config.trans ih

theorem Step.waits (h : a.Step b) : b.trail.waits = a.trail.waits := by
  cases h <;> rfl

theorem Steps.waits (h : a.Steps b) : b.trail.waits = a.trail.waits := by
  induction h with
  | refl => rfl
  | tail _ hs ih => exact hs.waits.trans ih

end Archive

end Custody.Audit

namespace Custody

/-- The trail and the disk of a world, with an entry that is on its way. -/
def World.archive (w : World) (hand : Option Audit.Entry) : Audit.Archive := ⟨w.trail, w.site.disk, hand⟩

theorem World.Becomes.archive {w w' : World} {t : Audit.Trail} {d : Disk} (h : w.Becomes t d w')
    (hand : Option Audit.Entry) : w'.archive hand = ⟨t, d, hand⟩ := by
  rw [World.archive, h.trail, h.disk]

end Custody
