import Custody.Proofs.Act
import Mathlib.Data.List.Nodup

/-! What is found at the places of a disk after each operation on it. -/
namespace Custody.Disk

theorem lookup_cons_ite (k j : Location) (m : Node) (rest : List (Location × Node)) :
    ((j, m) :: rest).lookup k = if k = j then some m else rest.lookup k := by
  rw [List.lookup_cons]
  by_cases h : k = j
  · rw [if_pos h, beq_iff_eq.2 h]
  · rw [if_neg h, beq_eq_false_iff_ne.2 h]

theorem lookup_put (l k : Location) (n : Node) (nodes : List (Location × Node)) :
    (put l n nodes).lookup k = if k = l then some n else nodes.lookup k := by
  induction nodes with
  | nil => exact lookup_cons_ite k l n []
  | cons head rest ih =>
    obtain ⟨j, m⟩ := head
    unfold put
    split
    · next hj =>
      subst hj
      rw [lookup_cons_ite, lookup_cons_ite]
      split <;> rfl
    · next hj =>
      rw [lookup_cons_ite, lookup_cons_ite, ih]
      by_cases h : k = j
      · rw [if_pos h, if_neg (fun hk => hj (h.symm.trans hk)), if_pos h]
      · rw [if_neg h, if_neg h]

/-- A place has what is listed for it, because it is listed once. -/
theorem mem_nodes_iff {d : Disk} {l : Location} {n : Node} : (l, n) ∈ d.nodes ↔ d.node? l = some n := by
  constructor
  · intro h
    cases hl : d.node? l with
    | none =>
      have := List.lookup_eq_none_iff.1 hl (l, n) h
      simp at this
    | some m =>
      obtain ⟨before, rest, hs, -⟩ := List.lookup_eq_some_iff.1 hl
      have hm : (l, m) ∈ d.nodes := by rw [hs]; simp
      have := List.inj_on_of_nodup_map d.nodup h hm rfl
      rw [(Prod.mk.inj this).2]
  · intro h
    obtain ⟨before, rest, hs, -⟩ := List.lookup_eq_some_iff.1 h
    rw [hs]
    simp

theorem serial_lt {d : Disk} {l : Location} {f : File} (h : d.node? l = some (.file f)) :
    f.serial < d.nextSerial := d.precedes _ (mem_nodes_iff.2 h)

theorem node?_placeDirectory (d : Disk) (l k : Location) (mode : Nat) :
    (d.placeDirectory l mode).node? k = if k = l then some (.directory mode) else d.node? k :=
  lookup_put l k _ d.nodes

theorem node?_create (d : Disk) (l k : Location) (mode : Nat) :
    (d.create l mode).node? k =
      if k = l then some (.file ⟨d.nextSerial, [], d.time, mode⟩) else d.node? k :=
  lookup_put l k _ d.nodes

private theorem node?_edit (d : Disk) (serial : Nat) (g : File → File) (k : Location) :
    (d.edit serial g).node? k = (d.node? k).map (Node.edit serial g) := by
  change ((d.nodes.map fun e => (e.1, e.2.edit serial g)).lookup k) = (d.nodes.lookup k).map _
  induction d.nodes with
  | nil => rfl
  | cons head rest ih =>
    rw [List.map_cons, List.lookup_cons, List.lookup_cons, ih]
    cases k == head.1 <;> rfl

theorem node?_append (d : Disk) (serial : Nat) (b : Bytes) (k : Location) :
    (d.append serial b).node? k = (d.node? k).map
      (Node.edit serial fun f => { f with content := f.content ++ b, modified := d.time }) :=
  node?_edit d serial _ k

theorem node?_keep (d : Disk) (test : Location → Bool) (k : Location) :
    (d.keep test).node? k = if test k then d.node? k else none := by
  change ((d.nodes.filter fun e => test e.1).lookup k) = if test k then d.nodes.lookup k else none
  induction d.nodes with
  | nil => simp
  | cons head rest ih =>
    obtain ⟨j, m⟩ := head
    rw [lookup_cons_ite, List.filter_cons]
    by_cases hj : test j = true
    · rw [if_pos hj, lookup_cons_ite, ih]
      by_cases h : k = j
      · rw [if_pos h, h, if_pos hj, if_pos rfl]
      · rw [if_neg h, if_neg h]
    · rw [if_neg hj, ih]
      by_cases h : k = j
      · rw [h, if_neg hj, if_neg hj]
      · rw [if_neg h]

/-- A file that is open under a serial number stands at some place. -/
theorem exists_of_fileOf? {d : Disk} {serial : Nat} {f : File} (h : d.fileOf? serial = some f) :
    f.serial = serial ∧ ∃ l, d.node? l = some (.file f) := by
  obtain ⟨⟨l, n⟩, hm, hn⟩ := List.exists_of_findSome?_eq_some h
  cases n with
  | directory mode => cases hn
  | file g =>
    dsimp only at hn
    split at hn
    · next hs =>
      cases hn
      exact ⟨hs, l, mem_nodes_iff.1 hm⟩
    · cases hn

theorem fileOf?_create_size (d : Disk) (l : Location) (mode : Nat) :
    (((d.create l mode).fileOf? d.nextSerial).map (·.content.length)).getD 0 = 0 := by
  cases h : (d.create l mode).fileOf? d.nextSerial with
  | none => rfl
  | some f =>
    obtain ⟨hs, k, hk⟩ := exists_of_fileOf? h
    rw [node?_create] at hk
    split at hk
    · cases hk
      rfl
    · have := serial_lt hk
      omega

end Custody.Disk
