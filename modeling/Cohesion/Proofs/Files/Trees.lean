/-
Trees of files as they are on a disk.

On a disk nothing is listed twice, and everything stands in a directory, up to the root.  In such a
tree the way from a directory along the parts of a path that is listed below it leads to the file
that is listed.

Main definitions:
* `FileTree.IsSound` — trees as they are on a disk.

Main results:
* `FileTree.mem_filesBelow_iff` — which files are listed below a directory;
* `FileTree.IsSound.read?_join` — **every file that is listed below a directory can be read from
  there**.
-/
import Cohesion.Files.Tree
import Cohesion.Proofs.Files.PathText
import Mathlib.Data.List.Induction
import Mathlib.Data.List.Nodup

set_option autoImplicit false

namespace Cohesion.FileTree

/-- A tree as it is on a disk. -/
structure IsSound (t : FileTree) : Prop where
  /-- The paths are as they are read. -/
  normal : ∀ e ∈ t.entries, e.1.IsNormal
  /-- No path leads back. -/
  forward : ∀ e ∈ t.entries, ".." ∉ e.1.parts
  /-- No path is listed twice. -/
  distinct : (t.entries.map (·.1)).Nodup
  /-- Everything stands in a directory. -/
  parents : ∀ e ∈ t.entries, e.1.parts ≠ [] → t.isDirectoryAt e.1.parent = true

instance (t : FileTree) : Decidable t.IsSound :=
  decidable_of_iff
    ((∀ e ∈ t.entries, e.1.IsNormal) ∧ (∀ e ∈ t.entries, ".." ∉ e.1.parts) ∧
      (t.entries.map (·.1)).Nodup ∧
        ∀ e ∈ t.entries, e.1.parts ≠ [] → t.isDirectoryAt e.1.parent = true)
    ⟨fun h => ⟨h.1, h.2.1, h.2.2.1, h.2.2.2⟩, fun h => ⟨h.1, h.2, h.3, h.4⟩⟩

variable {t : FileTree} {dir f p place : Path} {bytes : List UInt8}

/-! ### Ways -/

/-- A way along two lists of parts is a way along the first one and then along the second one. -/
theorem walk?_append (t : FileTree) (place : Path) (front back : List String) :
    t.walk? place (front ++ back) = (t.walk? place front).bind (t.walk? · back) := by
  induction front generalizing place with
  | nil => rfl
  | cons part front ih =>
      rw [List.cons_append, walk?, walk?, ih, ih, ih]
      split
      · rfl
      · split
        · rfl
        · split <;> rfl

theorem isDirectoryAt_iff : t.isDirectoryAt p = true ↔ t.at? p = some .directory := by
  rw [isDirectoryAt]
  split
  · rename_i h
    simp [h]
  · rename_i h
    simpa using h

theorem mem_of_at? {e : FileEntry} (h : t.at? p = some e) : (p, e) ∈ t.entries := by
  rw [at?, List.lookup_eq_some_iff] at h
  obtain ⟨front, back, heq, -⟩ := h
  rw [heq]
  exact List.mem_append_right front List.mem_cons_self

theorem below?_eq_some_iff : below? dir p = some f ↔
    p = ⟨dir.root, dir.parts ++ f.parts⟩ ∧ f.root = "" ∧ f.parts ≠ [] := by
  obtain ⟨root, parts⟩ := p
  rw [below?, Option.ite_none_right_eq_some, Bool.and_eq_true, Bool.and_eq_true, beq_iff_eq,
    List.isPrefixOf_iff_prefix, decide_eq_true_iff]
  dsimp only
  constructor
  · rintro ⟨⟨⟨rfl, rest, rfl⟩, hlength⟩, heq⟩
    cases heq
    rw [List.drop_left]
    refine ⟨rfl, rfl, fun hnil => ?_⟩
    rw [show rest = [] from hnil, List.append_nil] at hlength
    exact Nat.lt_irrefl _ hlength
  · rintro ⟨heq, hroot, hne⟩
    cases heq
    refine ⟨⟨⟨rfl, List.prefix_append _ _⟩, ?_⟩, ?_⟩
    · have hpos := List.length_pos_of_ne_nil hne
      rw [List.length_append]
      omega
    · rw [List.drop_left, Path.ofParts, ← hroot]

/-- Which files are listed below a directory, by their paths seen from it. -/
theorem mem_filesBelow_iff : f ∈ t.filesBelow dir ↔
    ∃ place, t.walk? (t.origin dir) dir.parts = some place ∧ f.root = "" ∧ f.parts ≠ [] ∧
      ∃ bytes, (⟨place.root, place.parts ++ f.parts⟩, .file bytes) ∈ t.entries := by
  rw [filesBelow]
  constructor
  · intro h
    split at h
    · cases h
    · rename_i place hwalk
      obtain ⟨⟨p, entry⟩, he, hf⟩ := List.mem_filterMap.1 h
      cases entry with
      | file bytes =>
          obtain ⟨rfl, hroot, hne⟩ := below?_eq_some_iff.1 hf
          exact ⟨place, hwalk, hroot, hne, bytes, he⟩
      | directory => cases hf
  · rintro ⟨place, hwalk, hroot, hne, bytes, he⟩
    rw [hwalk]
    exact List.mem_filterMap.2 ⟨_, he, below?_eq_some_iff.2 ⟨rfl, hroot, hne⟩⟩

namespace IsSound

theorem at?_of_mem (h : t.IsSound) {e : FileEntry} (he : (p, e) ∈ t.entries) :
    t.at? p = some e := by
  cases hat : t.at? p with
  | none =>
      rw [at?, List.lookup_eq_none_iff] at hat
      simpa using hat _ he
  | some other =>
      have heq := List.inj_on_of_nodup_map h.distinct (mem_of_at? hat) he rfl
      rw [(Prod.mk.injEq .. ▸ heq : p = p ∧ other = e).2]

/-- On the way to something there are only directories. -/
theorem isDirectoryAt_of_mem (h : t.IsSound) {front back : List String} {e : FileEntry}
    (he : (p, e) ∈ t.entries) (hparts : p.parts = front ++ back) (hback : back ≠ []) :
    t.isDirectoryAt ⟨p.root, front⟩ = true := by
  -- by induction on the number of parts that are taken away
  obtain ⟨root, parts⟩ := p
  dsimp only at hparts ⊢
  induction back using List.reverseRecOn generalizing parts e with
  | nil => exact absurd rfl hback
  | append_singleton back part ih =>
      have hparent := h.parents _ he (by simp [hparts])
      have hdrop : Path.parent ⟨root, parts⟩ = ⟨root, front ++ back⟩ := by
        rw [Path.parent, hparts, ← List.append_assoc, List.dropLast_concat]
      rw [hdrop] at hparent
      rcases List.eq_nil_or_concat back with rfl | ⟨_, _, rfl⟩
      · rwa [List.append_nil] at hparent
      · exact ih (by simp) _ (mem_of_at? (isDirectoryAt_iff.1 hparent)) rfl

/-- The way along the last parts of a path leads to it. -/
theorem walk?_eq (h : t.IsSound) {rest : List String} {e : FileEntry} (he : (p, e) ∈ t.entries)
    (hroot : p.root = place.root) (hparts : p.parts = place.parts ++ rest) :
    t.walk? place rest = some p := by
  induction rest generalizing place with
  | nil =>
      rw [List.append_nil] at hparts
      obtain ⟨root, parts⟩ := p
      cases hroot
      cases hparts
      rfl
  | cons part rest ih =>
      have hmem : part ∈ p.parts := by simp [hparts]
      have hpart := (h.normal (p, e) he).isPart part hmem
      have hback : part ≠ ".." := by
        rintro rfl
        exact h.forward (p, e) he hmem
      rw [Path.isPart, Bool.and_eq_true, bne_iff_ne, bne_iff_ne] at hpart
      have hdirectory : t.isDirectoryAt place = true := by
        have hfound := h.isDirectoryAt_of_mem he hparts (List.cons_ne_nil part rest)
        rwa [hroot] at hfound
      rw [walk?, hdirectory]
      simp only [Bool.not_true, Bool.false_eq_true, if_false, beq_iff_eq, hpart.1, hpart.2,
        or_self, Bool.or_eq_true, hback]
      exact ih hroot (by rw [hparts, List.append_assoc, List.singleton_append])

/-- **Every file that is listed below a directory can be read from there.** -/
theorem read?_join (h : t.IsSound) (hf : f ∈ t.filesBelow dir) :
    ∃ bytes, t.read? (dir.join f) = some bytes := by
  obtain ⟨place, hwalk, hroot, -, bytes, he⟩ := mem_filesBelow_iff.1 hf
  have hjoin : dir.join f = ⟨dir.root, dir.parts ++ f.parts⟩ := by
    rw [Path.join, Path.isAbsolute, hroot]
    rfl
  have horigin : t.origin ⟨dir.root, dir.parts ++ f.parts⟩ = t.origin dir := rfl
  have hway : t.walk? place f.parts = some ⟨place.root, place.parts ++ f.parts⟩ :=
    h.walk?_eq he rfl rfl
  have hentry : t.entry? (dir.join f) = some (.file bytes) := by
    rw [hjoin, entry?, horigin, walk?_append, hwalk, Option.bind_some, hway, Option.bind_some,
      h.at?_of_mem he]
  exact ⟨bytes, by rw [read?, hentry]⟩

/-- The path of a file that is listed below a directory is as it is read. -/
theorem isNormal_of_mem_filesBelow (h : t.IsSound) (hf : f ∈ t.filesBelow dir) : f.IsNormal := by
  obtain ⟨place, -, hroot, -, bytes, he⟩ := mem_filesBelow_iff.1 hf
  have hnormal := h.normal _ he
  exact ⟨Or.inl hroot, fun part hpart => hnormal.isPart part (List.mem_append_right _ hpart),
    fun part hpart => hnormal.slash part (List.mem_append_right _ hpart)⟩

end IsSound

end Cohesion.FileTree
