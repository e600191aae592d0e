import Custody.Proofs.Storage.Places

/-! What the operations on a disk do when they succeed, and with what they fail. -/
namespace Custody.Disk
open Act

/-- Files are as they were; only directories are added or get another mode. -/
structure Prepares (d d' : Disk) : Prop extends d.HasDirectories d' where
  nextSerial : d'.nextSerial = d.nextSerial
  file : ∀ l f, d'.node? l = some (.file f) ↔ d.node? l = some (.file f)

theorem Prepares.refl (d : Disk) : d.Prepares d :=
  ⟨⟨rfl, fun _ mode h => ⟨mode, h⟩⟩, rfl, fun _ _ => Iff.rfl⟩

theorem Prepares.trans {d d' d'' : Disk} (h : d.Prepares d') (h' : d'.Prepares d'') : d.Prepares d'' where
  cwd := h'.cwd.trans h.cwd
  directory l mode hl := by
    obtain ⟨mode', hl'⟩ := h.directory l mode hl
    exact h'.directory l mode' hl'
  nextSerial := h'.nextSerial.trans h.nextSerial
  file l f := (h'.file l f).trans (h.file l f)

theorem Prepares.isSome {d d' : Disk} (h : d.Prepares d') {l : Location} (hl : d'.node? l = none) :
    d.node? l = none := by
  cases hn : d.node? l with
  | none => rfl
  | some n =>
    cases n with
    | directory mode =>
      obtain ⟨mode', hm⟩ := h.directory l mode hn
      rw [hl] at hm
      cases hm
    | file f =>
      have := (h.file l f).2 hn
      rw [hl] at this
      cases this

theorem prepares_placeDirectory {d : Disk} {l : Location} {mode : Nat}
    (h : ∀ f, d.node? l ≠ some (.file f)) : d.Prepares (d.placeDirectory l mode) where
  cwd := rfl
  directory k m hk := by
    rw [node?_placeDirectory]
    split
    · exact ⟨mode, rfl⟩
    · exact ⟨m, hk⟩
  nextSerial := rfl
  file k f := by
    rw [node?_placeDirectory]
    split
    · next hk =>
      subst hk
      exact iff_of_false (fun hf => by cases hf) (h f)
    · exact Iff.rfl

theorem hasDirectories_create {d : Disk} {l : Location} (mode : Nat) (h : d.node? l = none) :
    d.HasDirectories (d.create l mode) where
  cwd := rfl
  directory k m hk := by
    rw [node?_create]
    split
    · next hl =>
      rw [hl, h] at hk
      cases hk
    · exact ⟨m, hk⟩

theorem query_bind_ok {α β : Type} {q : Disk → Except Failure α} {f : α → DiskAct β} {d : Disk} {x : α}
    (h : q d = .ok x) : (query q >>= f) d = f x d :=
  bind_of_ok (by rw [query, h])

theorem query_bind_error {α β : Type} {q : Disk → Except Failure α} {f : α → DiskAct β} {d : Disk}
    {e : Failure} (h : q d = .error e) : (query q >>= f) d = .error e d :=
  bind_of_error (by rw [query, h])

/-- The end of an attempt to make a directory: there is one under the path, or the path is refused. Either
way nothing else has changed. -/
def Makes (p : Path) (d : Disk) (r : EStateM.Result Failure Disk Unit) : Prop :=
  (∃ l mode d', d.Prepares d' ∧ d'.locate p = .ok l ∧ d'.node? l = some (.directory mode) ∧ r = .ok () d') ∨
    (∃ e d', d.Prepares d' ∧ p.Refuses e ∧ r = .error e d')

theorem Makes.after {p : Path} {d d' : Disk} {r : EStateM.Result Failure Disk Unit} (h : d.Prepares d')
    (hr : Makes p d' r) : Makes p d r := by
  rcases hr with ⟨l, mode, d'', h', hl, hn, rfl⟩ | ⟨e, d'', h', he, rfl⟩
  · exact Or.inl ⟨l, mode, d'', h.trans h', hl, hn, rfl⟩
  · exact Or.inr ⟨e, d'', h.trans h', he, rfl⟩

theorem makeDirectory_exact (mode : Nat) (p : Path) (d : Disk) :
    (∃ l, d.locate p = .ok l ∧ d.node? l = none ∧ makeDirectory mode p d = .ok () (d.placeDirectory l mode)) ∨
    (∃ e, p.Refuses e ∧ makeDirectory mode p d = .error e d) := by
  unfold makeDirectory
  cases hl : d.locate p with
  | error e => exact Or.inr ⟨e, locate_error hl, query_bind_error hl⟩
  | ok l =>
    rw [query_bind_ok (q := (locate · p)) hl, get_bind]
    cases hn : d.node? l with
    | none => exact Or.inl ⟨l, rfl, hn, rfl⟩
    | some n => exact Or.inr ⟨_, Or.inl ⟨rfl, nameable_of_locate hl⟩, rfl⟩

private theorem makeDirectory_cases (mode : Nat) (p : Path) (d : Disk) :
    (∃ l d', d.Prepares d' ∧ d'.locate p = .ok l ∧ d'.node? l = some (.directory mode) ∧
      makeDirectory mode p d = .ok () d') ∨
    (∃ e, p.Refuses e ∧ makeDirectory mode p d = .error e d) := by
  refine (makeDirectory_exact mode p d).imp_left ?_
  rintro ⟨l, hl, hn, h⟩
  have hp : d.Prepares (d.placeDirectory l mode) := prepares_placeDirectory (by simp [hn])
  exact ⟨l, _, hp, hp.toHasDirectories.locate hl, by rw [node?_placeDirectory, if_pos rfl], h⟩

theorem makes_settle {p : Path} {e : Failure} (he : p.Refuses e) (d : Disk) : Makes p d (settle p e d) := by
  have refused : ∀ {e' : Failure}, p.Refuses e' → Makes p d (.error e' d) :=
    fun he' => Or.inr ⟨_, d, .refl d, he', rfl⟩
  unfold settle
  by_cases hs : e.isSystem = true
  · have hp : p.Nameable := he.isSystem_iff.1 hs
    rw [if_pos hs]
    cases hq : d.isDirectory p with
    | error e' =>
      rw [query_bind_error (q := (isDirectory · p)) hq]
      exact refused (Or.inl (check_error hq))
    | ok b =>
      rw [query_bind_ok (q := (isDirectory · p)) hq]
      cases b with
      | false => exact refused he
      | true =>
        obtain ⟨l, n, hl, hn, ht⟩ := check_true hq
        cases n with
        | directory mode => exact Or.inl ⟨l, mode, d, .refl d, hl, hn, rfl⟩
        | file f => cases ht
  · rw [if_neg hs]
    exact refused he

/-- After directories have been made, the path leads to one. -/
theorem makes_makeDirectories (mode : Nat) (p : Path) (d : Disk) : Makes p d (makeDirectories mode p d) := by
  -- By the recursion of `makeDirectories`: the directories above come first.
  induction hn : p.parts.length using Nat.strongRecOn generalizing mode p d with
  | ind n ih =>
    subst hn
    rw [makeDirectories]
    rcases makeDirectory_cases mode p d with ⟨l, d', hp, hl, hn, h⟩ | ⟨e, he, h⟩
    · rw [h]
      exact Or.inl ⟨l, mode, d', hp, hl, hn, rfl⟩
    · rw [h]
      dsimp only
      split
      · next hc =>
        have hlt : p.parent.parts.length < p.parts.length := by
          have : p.parts.length ≠ 0 := by simpa using hc.2
          simp only [Path.parent, List.length_dropLast]
          omega
        rcases ih _ hlt usualMode p.parent d rfl with ⟨_, _, d', hd, -, -, hr⟩ | ⟨e', d', hd, he', hr⟩
        · rw [hr]
          refine Makes.after hd ?_
          dsimp only
          rcases makeDirectory_cases mode p d' with ⟨l, d'', hp, hl, hn, h'⟩ | ⟨e'', he'', h'⟩
          · rw [h']
            exact Or.inl ⟨l, mode, d'', hp, hl, hn, rfl⟩
          · rw [h']
            exact makes_settle he'' d'
        · -- The path was missing and not ill-formed, so the one above is not ill-formed either.
          have hp : p.Nameable := he.isSystem_iff.1 (by rw [hc.1]; rfl)
          rw [hr]
          exact Or.inr ⟨e', d', hd, Or.inl ⟨he'.isSystem_iff.2 hp.parent, hp⟩, rfl⟩
      · exact makes_settle he d

/-- Between two disks something has been made on the way to a path only. -/
structure Paves (p : Path) (d d' : Disk) : Prop where
  cwd : d'.cwd = d.cwd
  made : ∀ l, (∀ q, p.LeadsOver q → d.place q ≠ l) → d.node? l = none → d'.node? l = none

namespace Paves
variable {p : Path} {d d' d'' : Disk}

theorem refl (p : Path) (d : Disk) : Paves p d d := ⟨rfl, fun _ _ h => h⟩

theorem trans (h : Paves p d d') (h' : Paves p d' d'') : Paves p d d'' := by
  refine ⟨h'.cwd.trans h.cwd, fun l hl hn => h'.made l (fun q hq => ?_) (h.made l hl hn)⟩
  rw [place_eq_of_cwd h.cwd]
  exact hl q hq

theorem of_parent (h : Paves p.parent d d') : Paves p d d' :=
  ⟨h.cwd, fun l hl hn => h.made l (fun q hq => hl q hq.of_parent) hn⟩

theorem placeDirectory {l : Location} (hl : d.locate p = .ok l) (mode : Nat) : Paves p d (d.placeDirectory l mode) := by
  refine ⟨rfl, fun k hk hn => ?_⟩
  have hne : k ≠ l := by
    rw [eq_place_of_locate hl]
    exact (hk p p.leadsOver_refl).symm
  rw [node?_placeDirectory, if_neg hne, hn]

end Paves

theorem settle_cases (p : Path) (e : Failure) (d : Disk) :
    settle p e d = .ok () d ∨ ∃ e', settle p e d = .error e' d := by
  unfold settle
  split
  · cases hq : d.isDirectory p with
    | error e' => exact Or.inr ⟨e', query_bind_error (q := (isDirectory · p)) hq⟩
    | ok b =>
      rw [query_bind_ok (q := (isDirectory · p)) hq]
      cases b with
      | false => exact Or.inr ⟨e, rfl⟩
      | true => exact Or.inl rfl
  · exact Or.inr ⟨e, rfl⟩

/-- An operation makes nothing but on the way to a path, whether it succeeds or not. -/
def KeepsTo (p : Path) (d : Disk) (r : EStateM.Result Failure Disk Unit) : Prop :=
  (∀ d', r = .ok () d' → Paves p d d') ∧ ∀ e d', r = .error e d' → Paves p d d'

theorem keepsTo_ok {p : Path} {d d' : Disk} (h : Paves p d d') : KeepsTo p d (.ok () d') := by
  refine ⟨?_, ?_⟩
  · rintro d'' ⟨⟩
    exact h
  · rintro e d'' ⟨⟩

theorem keepsTo_error {p : Path} {d d' : Disk} (h : Paves p d d') (e : Failure) : KeepsTo p d (.error e d') := by
  refine ⟨?_, ?_⟩
  · rintro d'' ⟨⟩
  · rintro e d'' ⟨⟩
    exact h

theorem keepsTo_settle {p : Path} {d d' : Disk} (h : Paves p d d') (e : Failure) : KeepsTo p d (settle p e d') := by
  rcases settle_cases p e d' with hs | ⟨e', hs⟩
  · rw [hs]
    exact keepsTo_ok h
  · rw [hs]
    exact keepsTo_error h e'

theorem paves_makeDirectories (mode : Nat) (p : Path) (d : Disk) : KeepsTo p d (makeDirectories mode p d) := by
  -- By the recursion of `makeDirectories`, as for what it makes.
  induction hn : p.parts.length using Nat.strongRecOn generalizing mode p d with
  | ind n ih =>
    subst hn
    rw [makeDirectories]
    rcases makeDirectory_exact mode p d with ⟨l, hl, -, h⟩ | ⟨e, -, h⟩
    · rw [h]
      exact keepsTo_ok (.placeDirectory hl mode)
    · rw [h]
      dsimp only
      split
      · next hc =>
        have hlt : p.parent.parts.length < p.parts.length := by
          have : p.parts.length ≠ 0 := by simpa using hc.2
          simp only [Path.parent, List.length_dropLast]
          omega
        have hparent := ih _ hlt usualMode p.parent d rfl
        cases hr : makeDirectories usualMode p.parent d with
        | error e' d' => exact keepsTo_error (hparent.2 e' d' hr).of_parent e'
        | ok u d' =>
          have hd := (hparent.1 d' hr).of_parent
          dsimp only
          rcases makeDirectory_exact mode p d' with ⟨l, hl, -, h'⟩ | ⟨e'', -, h'⟩
          · rw [h']
            exact keepsTo_ok (hd.trans (.placeDirectory hl mode))
          · rw [h']
            exact keepsTo_settle hd e''
      · exact keepsTo_settle (.refl p d) e

theorem setMode_directory {mode mode' : Nat} {p : Path} {d : Disk} {l : Location} (hl : d.locate p = .ok l)
    (hn : d.node? l = some (.directory mode')) : setMode mode p d = .ok () (d.placeDirectory l mode) := by
  unfold setMode
  rw [query_bind_ok (q := (locate · p)) hl, get_bind, hn]
  rfl

/-- Where there is nothing, an opening makes an empty file, or it fails and leaves the disk alone. -/
theorem openAppend_cases (mode : Nat) {p : Path} {d : Disk} (h : d.pathExists p = .ok false) :
    (∃ l, d.locate p = .ok l ∧ d.node? l = none ∧
      openAppend mode p d = .ok d.nextSerial (d.create l mode)) ∨
    (∃ e, p.Refuses e ∧ openAppend mode p d = .error e d) := by
  unfold openAppend
  cases hl : d.locate p with
  | error e => exact Or.inr ⟨e, locate_error hl, query_bind_error hl⟩
  | ok l =>
    have hn : d.node? l = none := node?_of_pathExists_false h hl
    rw [query_bind_ok (q := (locate · p)) hl, get_bind, hn]
    dsimp only
    split
    · exact Or.inl ⟨l, rfl, hn, rfl⟩
    · exact Or.inr ⟨_, Or.inl ⟨rfl, nameable_of_locate hl⟩, rfl⟩

theorem remove_cases (p : Path) (d : Disk) :
    (∃ l f, d.locate p = .ok l ∧ d.node? l = some (.file f) ∧ remove p d = .ok () (d.keep fun k => k ≠ l)) ∨
    (∃ e, p.Refuses e ∧ remove p d = .error e d) := by
  unfold remove
  cases hl : d.locate p with
  | error e => exact Or.inr ⟨e, locate_error hl, query_bind_error hl⟩
  | ok l =>
    have refused : ∀ {e : SystemError}, p.Refuses (.system e) :=
      Or.inl ⟨Failure.isSystem_system _, nameable_of_locate hl⟩
    rw [query_bind_ok (q := (locate · p)) hl, get_bind]
    cases hn : d.node? l with
    | none => exact Or.inr ⟨_, refused, rfl⟩
    | some n =>
      cases n with
      | directory mode => exact Or.inr ⟨_, refused, rfl⟩
      | file f => exact Or.inl ⟨l, f, rfl, hn, rfl⟩

end Custody.Disk
