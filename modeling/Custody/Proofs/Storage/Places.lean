import Custody.Proofs.Storage.Contents

/-! Which texts can name a place, where a path leads to, and what cannot move a place. -/
namespace Custody

/-- Whether a name on the disk can hold a character: it is not zero and it has an encoding. -/
def CodePoint.isNameable (c : CodePoint) : Bool :=
  !(c.isSurrogate && !Disk.isEscapedByte c) && !decide (c.val = 0)

namespace Text

theorem mem_join {sep : Text} {c : CodePoint} {l : List Text} (h : c ∈ join sep l) :
    c ∈ sep ∨ ∃ t ∈ l, c ∈ t := by
  induction l with
  | nil => cases h
  | cons t rest ih =>
    cases rest with
    | nil => exact Or.inr ⟨t, List.mem_cons_self, h⟩
    | cons u more =>
      rw [join, List.mem_append, List.mem_append] at h
      rcases h with (h | h) | h
      · exact Or.inr ⟨t, List.mem_cons_self, h⟩
      · exact Or.inl h
      · rcases ih h with h | ⟨v, hv, hc⟩
        · exact Or.inl h
        · exact Or.inr ⟨v, List.mem_cons_of_mem _ hv, hc⟩
      · simp

theorem join_concat (sep t : Text) (l : List Text) : ∃ rest, join sep (l ++ [t]) = join sep l ++ rest := by
  induction l with
  | nil => exact ⟨t, rfl⟩
  | cons u rest ih =>
    cases rest with
    | nil => exact ⟨sep ++ t, List.append_assoc u sep t⟩
    | cons v more =>
      obtain ⟨tail, htail⟩ := ih
      have hjoin : ∀ w, join sep (u :: v :: w) = u ++ sep ++ join sep (v :: w) := fun w => by
        rw [join]
        simp
      refine ⟨tail, ?_⟩
      rw [List.cons_append, List.cons_append, hjoin, hjoin, List.append_assoc _ (join sep (v :: more)), ← htail]
      rfl

theorem mem_join_of_mem {sep : Text} {c : CodePoint} {t : Text} {l : List Text} (ht : t ∈ l) (hc : c ∈ t) :
    c ∈ join sep l := by
  induction l with
  | nil => cases ht
  | cons u rest ih =>
    cases rest with
    | nil =>
      rw [List.mem_singleton.1 ht] at hc
      exact hc
    | cons v more =>
      rw [join, List.mem_append]
      · rcases List.mem_cons.1 ht with rfl | ht
        · exact Or.inl (List.mem_append_left _ hc)
        · exact Or.inr (ih ht)
      · simp

end Text

namespace Path

def Nameable (p : Path) : Prop := ∀ c ∈ p.text, c.isNameable = true

instance (p : Path) : Decidable p.Nameable := inferInstanceAs (Decidable (∀ c ∈ p.text, c.isNameable = true))

/-- Only the components of a path decide whether it can name something. -/
theorem nameable_iff (p : Path) : p.Nameable ↔ ∀ part ∈ p.parts, ∀ c ∈ part, c.isNameable = true := by
  have hsep : ∀ c ∈ ("/" : Text), c.isNameable = true := by decide
  have hroot : ∀ c ∈ rootText p.root, c.isNameable = true := by
    cases p.root <;> decide
  constructor
  · intro h part hpart c hc
    apply h
    unfold text
    have hm : c ∈ rootText p.root ++ Text.join "/" p.parts :=
      List.mem_append_right _ (Text.mem_join_of_mem hpart hc)
    dsimp only
    rw [if_neg (List.ne_nil_of_mem hm)]
    exact hm
  · intro h c hc
    unfold text at hc
    dsimp only at hc
    split at hc
    · revert c
      decide
    · rcases List.mem_append.1 hc with hc | hc
      · exact hroot c hc
      · rcases Text.mem_join hc with hc | ⟨part, hpart, hc⟩
        · exact hsep c hc
        · exact h part hpart c hc

theorem Nameable.parent {p : Path} (h : p.Nameable) : p.parent.Nameable := by
  rw [nameable_iff] at h ⊢
  exact fun part hpart => h part (p.parts.dropLast_subset hpart)

theorem Nameable.of_child {p : Path} {name : Text} (h : (p.child name).Nameable) : p.Nameable := by
  rw [nameable_iff] at h ⊢
  exact fun part hpart => h part (List.mem_append_left _ hpart)

theorem Nameable.child {p : Path} (h : p.Nameable) {name : Text} (hn : ∀ c ∈ name, c.isNameable = true) :
    (p.child name).Nameable := by
  rw [nameable_iff] at h ⊢
  intro part hpart
  rcases List.mem_append.1 hpart with hpart | hpart
  · exact h part hpart
  · rw [List.mem_singleton.1 hpart]
    exact hn

/-- The way to one path leads over another. -/
def LeadsOver (p q : Path) : Prop := q.root = p.root ∧ q.parts <+: p.parts

theorem leadsOver_refl (p : Path) : p.LeadsOver p := ⟨rfl, List.prefix_refl _⟩

theorem LeadsOver.of_parent {p q : Path} (h : p.parent.LeadsOver q) : p.LeadsOver q :=
  ⟨h.1, h.2.trans (List.dropLast_prefix p.parts)⟩

/-- A failure that a path may meet with: the machine refuses, or the path cannot name anything and is
refused for its text. -/
def Refuses (p : Path) (e : Failure) : Prop :=
  (e.isSystem = true ∧ p.Nameable) ∨ ((e = .surrogate ∨ e = .badValue) ∧ ¬p.Nameable)

theorem Refuses.isLoss {p : Path} {e : Failure} (h : p.Refuses e) : e.isSystem = true ∨ e.isValue = true := by
  rcases h with ⟨h, -⟩ | ⟨rfl | rfl, -⟩
  · exact Or.inl h
  · exact Or.inr rfl
  · exact Or.inr rfl

theorem Refuses.isSystem_iff {p : Path} {e : Failure} (h : p.Refuses e) : e.isSystem = true ↔ p.Nameable := by
  rcases h with ⟨he, hp⟩ | ⟨rfl | rfl, hp⟩
  · exact iff_of_true he hp
  · exact iff_of_false (by decide) hp
  · exact iff_of_false (by decide) hp

end Path

namespace Disk

/-- A path can name something if there is nothing in its text that it is refused for: a character without an encoding, or
a zero character. -/
theorem nameable_iff_any {p : Path} : p.Nameable ↔
    ¬(p.text.any fun c => c.isSurrogate && !isEscapedByte c) = true ∧
    ¬(p.text.any fun c : CodePoint => c.val = 0) = true := by
  simp only [Path.Nameable, CodePoint.isNameable, List.any_eq_true, Bool.and_eq_true, Bool.not_eq_true', not_exists,
    not_and, Bool.not_eq_true, ← forall_and]
  exact forall₂_congr fun c _ => by simp

theorem checkPath_error {p : Path} {e : Failure} (h : checkPath p = .error e) : p.Refuses e := by
  unfold checkPath at h
  split_ifs at h with hsurrogate hzero hlong
  · cases h
    exact Or.inr ⟨Or.inl rfl, fun hp => (nameable_iff_any.1 hp).1 hsurrogate⟩
  · cases h
    exact Or.inr ⟨Or.inr rfl, fun hp => (nameable_iff_any.1 hp).2 hzero⟩
  · cases h
    exact Or.inl ⟨rfl, nameable_iff_any.2 ⟨hsurrogate, hzero⟩⟩

/-- A path that passes the check can name something, and is short enough. -/
theorem checkPath_ok_iff {p : Path} : checkPath p = .ok () ↔ p.Nameable ∧ byteLength p.text ≤ maxPathLength := by
  rw [nameable_iff_any]
  unfold checkPath
  split_ifs with hsurrogate hzero hlong
  · exact iff_of_false (fun h => by cases h) fun h => h.1.1 hsurrogate
  · exact iff_of_false (fun h => by cases h) fun h => h.1.2 hzero
  · exact iff_of_false (fun h => by cases h) fun h => Nat.not_lt.2 h.2 hlong
  · exact iff_of_true rfl ⟨⟨hsurrogate, hzero⟩, Nat.le_of_not_lt hlong⟩

theorem nameable_of_checkPath {p : Path} (h : checkPath p = .ok ()) : p.Nameable := (checkPath_ok_iff.1 h).1

private theorem byteLength_append (s t : Text) : byteLength (s ++ t) = byteLength s + byteLength t := by
  have hfrom : ∀ (t : Text) (n : Nat), t.foldl (fun n c => n + if isEscapedByte c then 1 else
      (Utf8.encodePoint c).length) n = n + byteLength t := by
    intro t
    induction t with
    | nil => exact fun n => rfl
    | cons c t ih =>
      intro n
      rw [byteLength, List.foldl_cons, List.foldl_cons, ih, ih, Nat.zero_add, Nat.add_assoc]
  rw [byteLength, List.foldl_append, hfrom]
  rfl

/-- A path is short enough if one is that goes on from it. -/
theorem byteLength_text_le {p : Path} {n : Text} (h : byteLength (p.child n).text ≤ maxPathLength) :
    byteLength p.text ≤ maxPathLength := by
  obtain ⟨rest, hrest⟩ := Text.join_concat "/" n p.parts
  unfold Path.text Path.child at h
  unfold Path.text
  dsimp only at h ⊢
  rw [hrest, ← List.append_assoc] at h
  by_cases hnil : Path.rootText p.root ++ Text.join "/" p.parts = []
  · rw [if_pos hnil]
    decide
  · rw [if_neg fun hall => hnil (List.append_eq_nil_iff.1 hall).1, byteLength_append] at h
    rw [if_neg hnil]
    exact Nat.le_trans (Nat.le_add_right _ _) h

theorem checkPath_of_child {p : Path} {n : Text} (h : checkPath (p.child n) = .ok ()) : checkPath p = .ok () := by
  rw [checkPath_ok_iff] at h ⊢
  exact ⟨h.1.of_child, byteLength_text_le h.2⟩

def origin (d : Disk) (p : Path) : Location := if p.root = .relative then d.cwd else []

theorem locate_eq (d : Disk) (p : Path) :
    d.locate p = (checkPath p >>= fun _ => p.parts.foldlM d.step (d.origin p)) := rfl

theorem step_ok {d : Disk} {here l : Location} {name : Text} (h : d.step here name = .ok l) :
    (∃ mode, d.node? here = some (.directory mode)) ∧
      ((name = ".." ∧ l = here.dropLast) ∨ (name ≠ ".." ∧ l = here ++ [name])) := by
  unfold step at h
  split at h
  · cases h
  · cases h
  · next mode hm =>
    refine ⟨⟨mode, hm⟩, ?_⟩
    split at h
    · next hn =>
      cases h
      exact Or.inl ⟨hn, rfl⟩
    · next hn =>
      split at h
      · cases h
      · cases h
        exact Or.inr ⟨hn, rfl⟩

private theorem step_error {d : Disk} {here : Location} {name : Text} {e : Failure}
    (h : d.step here name = .error e) : e.isSystem = true := by
  unfold step at h
  split at h
  · cases h
    rfl
  · cases h
    rfl
  · split at h
    · cases h
    · split at h
      · cases h
        rfl
      · cases h

private theorem foldlM_step_error {d : Disk} {parts : List Text} {here : Location} {e : Failure}
    (h : parts.foldlM d.step here = .error e) : e.isSystem = true := by
  induction parts generalizing here with
  | nil => cases h
  | cons name rest ih =>
    rw [List.foldlM_cons, Failure.bind_eq_error] at h
    rcases h with hs | ⟨next, -, hr⟩
    · exact step_error hs
    · exact ih hr

theorem locate_error {d : Disk} {p : Path} {e : Failure} (h : d.locate p = .error e) : p.Refuses e := by
  rw [locate_eq, Failure.bind_eq_error] at h
  rcases h with hc | ⟨u, hc, hf⟩
  · exact checkPath_error hc
  · exact Or.inl ⟨foldlM_step_error hf, nameable_of_checkPath hc⟩

theorem nameable_of_locate {d : Disk} {p : Path} {l : Location} (h : d.locate p = .ok l) :
    p.Nameable := by
  rw [locate_eq, Failure.bind_eq_ok] at h
  obtain ⟨u, hc, -⟩ := h
  exact nameable_of_checkPath hc

/-- A path that ends in a name leads into a directory, and from there to that name. -/
theorem locate_child {d : Disk} {p : Path} {name : Text} {l : Location} (hn : name ≠ "..")
    (h : d.locate (p.child name) = .ok l) :
    ∃ here mode, d.locate p = .ok here ∧ d.node? here = some (.directory mode) ∧ l = here ++ [name] := by
  rw [locate_eq, Failure.bind_eq_ok] at h
  obtain ⟨u, hc, hf⟩ := h
  change (p.parts ++ [name]).foldlM d.step (d.origin p) = .ok l at hf
  rw [List.foldlM_append, Failure.bind_eq_ok] at hf
  obtain ⟨here, hh, hl⟩ := hf
  change (d.step here name >>= fun l => pure l) = .ok l at hl
  rw [bind_pure] at hl
  obtain ⟨⟨mode, hm⟩, hl⟩ := step_ok hl
  refine ⟨here, mode, ?_, hm, (hl.resolve_left fun hx => hn hx.1).2⟩
  rw [locate_eq, checkPath_of_child hc]
  exact hh

/-- Where a name leads from a place if it leads anywhere. -/
def follow (here : Location) (name : Text) : Location := if name = ".." then here.dropLast else here ++ [name]

/-- The place that a path names, whether there is a way to it or not. -/
def place (d : Disk) (p : Path) : Location := p.parts.foldl follow (d.origin p)

private theorem eq_follow_of_step {d : Disk} {here l : Location} {name : Text}
    (h : d.step here name = .ok l) :
    l = follow here name := by
  unfold follow
  rcases step_ok h with ⟨-, ⟨hn, hl⟩ | ⟨hn, hl⟩⟩
  · rw [if_pos hn, hl]
  · rw [if_neg hn, hl]

theorem eq_place_of_foldlM {d : Disk} {p : Path} {l : Location} (h : p.parts.foldlM d.step (d.origin p) = .ok l) :
    l = d.place p := by
  have hfold : ∀ (parts : List Text) (here : Location), parts.foldlM d.step here = .ok l →
      l = parts.foldl follow here := by
    intro parts
    induction parts with
    | nil =>
      intro here hf
      cases hf
      rfl
    | cons name rest ih =>
      intro here hf
      rw [List.foldlM_cons, Failure.bind_eq_ok] at hf
      obtain ⟨next, hs, hr⟩ := hf
      rw [List.foldl_cons, ← eq_follow_of_step hs]
      exact ih next hr
  exact hfold p.parts (d.origin p) h

theorem foldlM_of_locate {d : Disk} {p : Path} {l : Location} (h : d.locate p = .ok l) :
    p.parts.foldlM d.step (d.origin p) = .ok l := by
  rw [locate_eq, Failure.bind_eq_ok] at h
  obtain ⟨u, -, hf⟩ := h
  exact hf

theorem eq_place_of_locate {d : Disk} {p : Path} {l : Location} (h : d.locate p = .ok l) : l = d.place p :=
  eq_place_of_foldlM (foldlM_of_locate h)

private theorem place_child {d : Disk} {p : Path} {name : Text} (h : name ≠ "..") :
    d.place (p.child name) = d.place p ++ [name] := by
  have hchild : d.place (p.child name) = follow (d.place p) name := List.foldl_concat follow _ _ _
  rw [hchild, follow, if_neg h]

theorem eq_place_child {d : Disk} {p : Path} {name : Text} {l : Location} (hn : name ≠ "..")
    (h : d.locate (p.child name) = .ok l) : l = d.place p ++ [name] := by
  rw [eq_place_of_locate h, place_child hn]

theorem place_eq_of_cwd {d d' : Disk} (h : d'.cwd = d.cwd) (p : Path) : d'.place p = d.place p := by
  rw [place, place, origin, origin, h]

/-- Every directory of one disk is a directory of another, which has the same working directory. -/
structure HasDirectories (d d' : Disk) : Prop where
  cwd : d'.cwd = d.cwd
  directory : ∀ l mode, d.node? l = some (.directory mode) → ∃ mode', d'.node? l = some (.directory mode')

/-- Paths lead where they led as long as directories stay directories. -/
theorem HasDirectories.locate {d d' : Disk} (hd : d.HasDirectories d') {p : Path} {l : Location}
    (h : d.locate p = .ok l) : d'.locate p = .ok l := by
  have hstep : ∀ {here next : Location} {name : Text},
      d.step here name = .ok next → d'.step here name = .ok next := by
    intro here next name hs
    obtain ⟨⟨mode, hm⟩, -⟩ := step_ok hs
    obtain ⟨mode', hm'⟩ := hd.directory here mode hm
    unfold step at hs ⊢
    rw [hm] at hs
    rw [hm']
    exact hs
  have hfold : ∀ (parts : List Text) (here : Location),
      parts.foldlM d.step here = .ok l → parts.foldlM d'.step here = .ok l := by
    intro parts
    induction parts with
    | nil => exact fun _ hf => hf
    | cons name rest ih =>
      intro here hf
      rw [List.foldlM_cons, Failure.bind_eq_ok] at hf ⊢
      obtain ⟨next, hs, hr⟩ := hf
      exact ⟨next, hstep hs, ih next hr⟩
  have horigin : d'.origin p = d.origin p := by rw [origin, origin, hd.cwd]
  rw [locate_eq, Failure.bind_eq_ok] at h ⊢
  obtain ⟨u, hc, hf⟩ := h
  rw [horigin]
  exact ⟨u, hc, hfold p.parts (d.origin p) hf⟩

theorem stat_eq_ok {d : Disk} {p : Path} {n : Node} :
    d.stat p = .ok n ↔ ∃ l, d.locate p = .ok l ∧ d.node? l = some n := by
  unfold stat
  rw [Failure.bind_eq_ok]
  constructor
  · rintro ⟨l, hl, hn⟩
    split at hn
    · next m hm =>
      cases hn
      exact ⟨l, hl, hm⟩
    · cases hn
  · rintro ⟨l, hl, hn⟩
    refine ⟨l, hl, ?_⟩
    rw [hn]

theorem stat_error {d : Disk} {p : Path} {e : Failure} (h : d.stat p = .error e) :
    d.locate p = .error e ∨ e = .system .notFound := by
  unfold stat at h
  rw [Failure.bind_eq_error] at h
  rcases h with h | ⟨l, -, hn⟩
  · exact Or.inl h
  · split at hn
    · cases hn
    · cases hn
      exact Or.inr rfl

/-- A test of what is under a path fails only when the machine refuses. -/
theorem check_error {test : Node → Bool} {d : Disk} {p : Path} {e : Failure}
    (h : check test d p = .error e) : e.isSystem = true ∧ p.Nameable := by
  unfold check at h
  split at h
  · cases h
  · next e' hs =>
    split at h
    · cases h
    · next ha =>
      cases h
      rcases stat_error hs with hl | rfl
      · rcases locate_error hl with he | ⟨rfl | rfl, -⟩
        · exact he
        · exact absurd rfl ha
        · exact absurd rfl ha
      · exact absurd rfl ha

/-- Under a path that passes a test there is something that passes it. -/
theorem check_true {test : Node → Bool} {d : Disk} {p : Path} (h : check test d p = .ok true) :
    ∃ l n, d.locate p = .ok l ∧ d.node? l = some n ∧ test n = true := by
  unfold check at h
  split at h
  · next n hs =>
    obtain ⟨l, hl, hn⟩ := stat_eq_ok.1 hs
    exact ⟨l, n, hl, hn, Except.ok.inj h⟩
  · split at h
    · cases h
    · cases h

/-- A path under which there is nothing leads nowhere, or to a place where nothing is. -/
theorem node?_of_pathExists_false {d : Disk} {p : Path} {l : Location} (h : d.pathExists p = .ok false)
    (hl : d.locate p = .ok l) : d.node? l = none := by
  cases hn : d.node? l with
  | none => rfl
  | some n =>
    unfold pathExists check at h
    rw [stat_eq_ok.2 ⟨l, hl, hn⟩] at h
    cases h

end Disk

end Custody
