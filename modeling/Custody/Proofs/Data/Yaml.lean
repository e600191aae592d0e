import Custody.Data.Yaml.Document
import Custody.Proofs.Act
import Custody.Proofs.Data.Fields

/-! The values of a YAML document: a leaf is never a record, and the record of a mapping has the mapping's entries. -/
namespace Custody.Yaml

/-- A value whose fields are entries of a mapping, if it has any. -/
def Tree.Plain (t : Tree) : Prop := ∀ r, t ≠ .leaf (.record r)

theorem plain_scalarValue {type : ScalarType} {t : Text} {v : Value} (h : scalarValue type t = .ok v) :
    (Tree.leaf v).Plain := by
  rintro r heq
  cases heq
  unfold scalarValue at h
  cases type with
  | null | text | merge | default => cases h
  | bool =>
    dsimp only at h
    split at h <;> cases h
  | int =>
    dsimp only at h
    split at h <;> cases h
  | float =>
    dsimp only at h
    split at h <;> cases h
  | timestamp =>
    dsimp only at h
    split at h
    · split at h <;> cases h
    · cases h

theorem Node.plain_tree {n : Node} {t : Tree} (h : n.tree = .ok t) : t.Plain := by
  have leaf : ∀ {x : Read Value}, (∀ v, x = .ok v → (Tree.leaf v).Plain) →
      (do return .leaf (← x) : Read Tree) = .ok t → t.Plain := by
    intro x hx hrun
    obtain ⟨v, hv, hrun⟩ := Failure.bind_eq_ok.1 hrun
    cases hrun
    exact hx v hv
  unfold Node.tree at h
  split at h
  · exact leaf (fun v hv => plain_scalarValue hv) h
  · cases h
    nofun
  · cases h
  · obtain ⟨ts, -, h⟩ := Failure.bind_eq_ok.1 h
    cases h
    nofun
  · obtain ⟨ts, -, h⟩ := Failure.bind_eq_ok.1 h
    cases h
    nofun
  · cases h
  · obtain ⟨⟨merged, own⟩, -, h⟩ := Failure.bind_eq_ok.1 h
    cases h
    nofun
  · obtain ⟨e, -, h⟩ := Failure.bind_eq_ok.1 h
    cases h
    nofun
  · cases h
  · cases h
    nofun

def PlainEntries (entries : List (Tree × Tree)) : Prop := ∀ e ∈ entries, e.2.Plain

theorem PlainEntries.nil : PlainEntries [] := fun _ he => absurd he List.not_mem_nil

theorem PlainEntries.append {l l' : List (Tree × Tree)} (h : PlainEntries l) (h' : PlainEntries l') :
    PlainEntries (l ++ l') := fun e he => (List.mem_append.1 he).elim (h e) (h' e)

theorem PlainEntries.cons {k v : Tree} {l : List (Tree × Tree)} (hv : v.Plain) (h : PlainEntries l) :
    PlainEntries ((k, v) :: l) := by
  intro e he
  rcases List.mem_cons.1 he with rfl | he
  · exact hv
  · exact h e he

mutual

theorem plain_entryTrees (es : List (Node × Node)) {merged own : List (Tree × Tree)}
    (h : entryTrees es = .ok (merged, own)) : PlainEntries merged ∧ PlainEntries own := by
  match es with
  | [] =>
    cases h
    exact ⟨.nil, .nil⟩
  | (k, v) :: rest =>
    unfold entryTrees at h
    split at h
    · next heq => cases heq
    · next w rest' heq =>
      cases heq
      obtain ⟨first, hfirst, h⟩ := Failure.bind_eq_ok.1 h
      obtain ⟨⟨merged', own'⟩, hrest, h⟩ := Failure.bind_eq_ok.1 h
      cases h
      have hplain := plain_entryTrees rest hrest
      exact ⟨(plain_mergedTrees v hfirst).append hplain.1, hplain.2⟩
    · next t w rest' heq =>
      cases heq
      obtain ⟨u, hu, h⟩ := Failure.bind_eq_ok.1 h
      obtain ⟨⟨merged', own'⟩, hrest, h⟩ := Failure.bind_eq_ok.1 h
      cases h
      have hplain := plain_entryTrees rest hrest
      exact ⟨hplain.1, .cons (Node.plain_tree hu) hplain.2⟩
    · next j w rest' _ _ heq =>
      cases heq
      obtain ⟨key, -, h⟩ := Failure.bind_eq_ok.1 h
      split at h
      · cases h
      · obtain ⟨u, hu, h⟩ := Failure.bind_eq_ok.1 h
        obtain ⟨⟨merged', own'⟩, hrest, h⟩ := Failure.bind_eq_ok.1 h
        cases h
        have hplain := plain_entryTrees rest hrest
        exact ⟨hplain.1, .cons (Node.plain_tree hu) hplain.2⟩

theorem plain_mergedTrees (n : Node) {l : List (Tree × Tree)} (h : mergedTrees n = .ok l) : PlainEntries l := by
  match n with
  | .mapping kind entries =>
    unfold mergedTrees at h
    obtain ⟨⟨merged, own⟩, hentries, h⟩ := Failure.bind_eq_ok.1 h
    cases h
    have hplain := plain_entryTrees entries hentries
    exact hplain.1.append hplain.2
  | .sequence kind items =>
    unfold mergedTrees at h
    exact plain_mergedItems items h
  | .scalar kind t => cases h
  | .cycle => cases h

theorem plain_mergedItems (ns : List Node) {l : List (Tree × Tree)} (h : mergedItems ns = .ok l) : PlainEntries l := by
  match ns with
  | [] =>
    cases h
    exact .nil
  | .mapping kind entries :: rest =>
    unfold mergedItems at h
    obtain ⟨⟨merged, own⟩, hentries, h⟩ := Failure.bind_eq_ok.1 h
    obtain ⟨more, hmore, h⟩ := Failure.bind_eq_ok.1 h
    cases h
    have hplain := plain_entryTrees entries hentries
    exact (plain_mergedItems rest hmore).append (hplain.1.append hplain.2)
  | .scalar kind t :: rest => cases h
  | .sequence kind items :: rest => cases h
  | .cycle :: rest => cases h

end

/-- The entries of the mapping that a text holds are plain. -/
theorem plain_read {t : Text} {entries : List (Tree × Tree)} (h : read t = .ok (.map entries)) :
    PlainEntries entries := by
  obtain ⟨n?, -, h⟩ := Failure.bind_eq_ok.1 h
  cases n? with
  | none => cases h
  | some n =>
    dsimp only at h
    unfold Node.tree at h
    split at h
    · obtain ⟨v, -, h⟩ := Failure.bind_eq_ok.1 h
      cases h
    · cases h
    · cases h
    · obtain ⟨ts, -, h⟩ := Failure.bind_eq_ok.1 h
      cases h
    · obtain ⟨ts, -, h⟩ := Failure.bind_eq_ok.1 h
      cases h
    · cases h
    · obtain ⟨⟨merged, own⟩, hentries, h⟩ := Failure.bind_eq_ok.1 h
      cases h
      have hplain := plain_entryTrees _ hentries
      exact hplain.1.append hplain.2
    · obtain ⟨e, -, h⟩ := Failure.bind_eq_ok.1 h
      cases h
    · cases h
    · cases h

namespace Tree

theorem nodup_textEntries (entries : List (Tree × Tree)) : ((textEntries entries).map Prod.fst).Nodup := by
  apply Value.nodup_setAll
  exact List.nodup_nil

/-- The text keys of a mapping with their values, as often as they stand there. -/
def texts (entries : List (Tree × Tree)) : List (Text × Tree) :=
  entries.filterMap fun (k, v) => match k with
    | leaf (.text k) => some (k, v)
    | _ => none

private theorem fields_eq (entries : List (Tree × Tree)) :
    fields entries = (texts entries).map fun e => (e.1, e.2.value) := by
  induction entries with
  | nil => rfl
  | cons e rest ih =>
    obtain ⟨k, v⟩ := e
    unfold fields
    split
    · next heq => cases heq
    · next k' v' rest' heq =>
      cases heq
      rw [ih]
      rfl
    · next rest' hnot heq =>
      cases heq
      rw [ih]
      unfold texts
      rw [List.filterMap_cons]
      dsimp only
      split
      · rfl
      · next w heq =>
        split at heq
        · next k' => exact absurd rfl (hnot k' v)
        · cases heq

/-- The value of a mapping is the record of its entries. -/
theorem value_map (entries : List (Tree × Tree)) :
    (Tree.map entries).value = .record ((textEntries entries).map fun e => (e.1, e.2.value)) := by
  have hset := Value.setAll_map value [] (texts entries)
  rw [value, fields_eq]
  exact congrArg Value.record hset

theorem mem_of_lookup_textEntries {entries : List (Tree × Tree)} {k : Text} {v : Tree}
    (h : (textEntries entries).lookup k = some v) : ∃ key, (key, v) ∈ entries := by
  have hset : (textEntries entries).lookup k = ((texts entries).reverse.lookup k).or none :=
    Value.lookup_setAll [] (texts entries) k
  rw [hset, Option.or_none] at h
  obtain ⟨before, rest, hsplit, -⟩ := List.lookup_eq_some_iff.1 h
  have hmem : (k, v) ∈ texts entries := by
    rw [← List.mem_reverse, hsplit]
    simp
  obtain ⟨⟨key, w⟩, hentry, heq⟩ := List.mem_filterMap.1 hmem
  refine ⟨key, ?_⟩
  dsimp only at heq
  split at heq
  · cases heq
    exact hentry
  · cases heq

end Tree

end Custody.Yaml
