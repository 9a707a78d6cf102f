/-
# Writing into a tree

Writing a file changes what its names lead to and nothing else. This is not plain from how
a tree is kept: a directory exists because a file lies below it, so a new file could make
new directories, and a path is followed through the directories that exist. But a path is
only followed to names all of whose leads exist, and it never writes over a directory. So
the directories stay as they are, and every path that led somewhere leads there still.
-/

import ChipAsm.Command.FileTree
import ChipAsm.Proofs.Except

namespace ChipAsm.Command.FileTree

variable {tree next : FileTree} {names : List Name} {path : Path} {contents : Contents}

/-! ## Following paths -/

/-- Everything on the way to the names exists. -/
def Reached (tree : FileTree) (names : List Name) : Prop :=
  ∀ lead, lead <+: names → lead ≠ names → tree.node lead ≠ .absent

theorem node_nil_ne_absent (tree : FileTree) : tree.node [] ≠ .absent := by
  rw [node]
  split
  · exact nofun
  · exact nofun

/-- One more name can be reached from what exists. -/
theorem Reached.concat (reached : tree.Reached names) (found : tree.node names ≠ .absent)
    (name : Name) : tree.Reached (names ++ [name]) := by
  intro lead isLead proper
  rcases List.prefix_concat_iff.mp isLead with whole | shorter
  · exact absurd whole proper
  · by_cases same : lead = names
    · exact same ▸ found
    · exact reached lead shorter same

theorem Reached.above (reached : tree.Reached names) (found : tree.node names ≠ .absent) :
    tree.Reached (above names) := by
  unfold FileTree.above
  split
  · next isRoot => exact isRoot ▸ reached
  · split
    · next empty =>
        obtain rfl := List.getLast?_eq_none_iff.mp empty
        exact reached.concat found outward
    · next last isLast =>
        split
        · exact reached.concat found outward
        · intro lead isLead proper
          have shorter : lead <+: names := isLead.trans (List.dropLast_prefix names)
          apply reached lead shorter
          rintro rfl
          exact proper (isLead.eq_of_length_le (by rw [List.length_dropLast]; omega))

/-- Going along a piece of a path leads to names that can be reached. -/
theorem Reached.descend {piece : Name} {further : List Name} (reached : tree.Reached names)
    (descended : tree.descend names piece = .ok further) : tree.Reached further := by
  unfold FileTree.descend at descended
  split at descended
  · cases descended
  · cases descended
  · next isDirectory =>
      have found : tree.node names ≠ .absent := by
        rw [isDirectory]
        exact nofun
      split at descended
      · exact Except.ok.inj descended ▸ reached
      · split at descended
        · exact Except.ok.inj descended ▸ reached.above found
        · split at descended
          · cases descended
          · exact Except.ok.inj descended ▸ reached.concat found piece

/-- What a path begins at can be reached. -/
theorem reached_start (tree : FileTree) (started : start path = .ok names) :
    tree.Reached names := by
  have nothing : tree.Reached [] := by
    intro lead isLead proper
    exact absurd (List.prefix_nil.mp isLead) proper
  unfold start at started
  split at started
  · cases started
  · split at started
    · cases started
    · split at started
      · exact Except.ok.inj started ▸ nothing.concat tree.node_nil_ne_absent _
      · exact Except.ok.inj started ▸ nothing

/-- A path leads to names that can be reached. -/
theorem reached_of_resolve (resolved : tree.resolve path = .ok names) : tree.Reached names := by
  rw [resolve, bind_eq_ok_iff] at resolved
  obtain ⟨first, started, followed⟩ := resolved
  exact foldlM_keeps tree.Reached (fun _ _ _ _ => Reached.descend) (tree.reached_start started)
    followed

/-- Both trees have the same directories. -/
def SameDirectories (tree next : FileTree) : Prop :=
  ∀ names, tree.node names = .directory ↔ next.node names = .directory

theorem SameDirectories.descend {piece : Name} {further : List Name}
    (same : tree.SameDirectories next) (descended : tree.descend names piece = .ok further) :
    next.descend names piece = .ok further := by
  unfold FileTree.descend at descended ⊢
  split at descended
  · cases descended
  · cases descended
  · next isDirectory => rw [(same names).mp isDirectory, descended]

/-- A path leads to the same names in a tree with the same directories. -/
theorem SameDirectories.resolve (same : tree.SameDirectories next)
    (resolved : tree.resolve path = .ok names) : next.resolve path = .ok names := by
  rw [FileTree.resolve, bind_eq_ok_iff] at resolved ⊢
  obtain ⟨first, started, followed⟩ := resolved
  refine ⟨first, started, ?_⟩
  generalize piecesOf path = pieces at followed
  clear started
  induction pieces generalizing first with
  | nil => exact followed
  | cons piece rest ih =>
      rw [List.foldlM_cons, bind_eq_ok_iff] at followed ⊢
      obtain ⟨further, descended, remaining⟩ := followed
      exact ⟨further, same.descend descended, ih further remaining⟩

/-! ## Writing -/

/-- Leaving out a file does not change which file is found by other names. -/
theorem lookup_filter {other : List Name} (differ : other ≠ names)
    (files : List (List Name × Contents)) :
    (files.filter fun file => file.1 != names).lookup other = files.lookup other := by
  induction files with
  | nil => rfl
  | cons file rest ih =>
      by_cases left : file.1 = names
      · have unseen : (other == file.1) = false := beq_false_of_ne (left ▸ differ)
        rw [List.filter_cons_of_neg (by simp [left]), ih, List.lookup_cons, unseen]
      · rw [List.filter_cons_of_pos (by simp [left]), List.lookup_cons, List.lookup_cons, ih]

/-- Apart from what leads to a file that is put, the same names lead to a file below them. -/
theorem any_files_put (tree : FileTree) (names : List Name) (contents : Contents)
    (other : List Name) :
    ((tree.put names contents).files.any fun file => other.isPrefixOf file.1) =
      (other.isPrefixOf names || tree.files.any fun file => other.isPrefixOf file.1) := by
  rw [put, List.any_cons, List.any_filter]
  cases lead : other.isPrefixOf names with
  | true => rfl
  | false =>
      rw [Bool.false_or, Bool.false_or]
      congr 1
      funext file
      by_cases left : file.1 = names
      · rw [left, lead, Bool.and_false]
      · rw [bne_iff_ne.mpr left, Bool.true_and]

/-- A file that is put at names that can be reached is found there, and what other names lead
to stays as it is. -/
theorem node_put (reached : tree.Reached names) (kept : names ≠ nullDevice) (contents : Contents)
    (other : List Name) :
    (tree.put names contents).node other =
      if other = names then .file contents else tree.node other := by
  by_cases same : other = names
  · rw [if_pos same, same, node, put, List.lookup_cons, beq_false_of_ne kept, List.lookup_cons_self]
  · have found : ((nullDevice, #[]) :: (tree.put names contents).files).lookup other =
        ((nullDevice, #[]) :: tree.files).lookup other := by
      rw [put, List.lookup_cons, List.lookup_cons, List.lookup_cons, beq_false_of_ne same,
        lookup_filter same]
    rw [if_neg same, node, node, found, any_files_put]
    cases lead : other.isPrefixOf names with
    | false => rw [Bool.false_or]
    | true =>
        -- The directory is not new, because everything on the way to the file exists.
        have before := reached other (List.isPrefixOf_iff_prefix.mp lead) same
        rw [node] at before
        split
        · rfl
        · next none =>
            rw [none] at before
            rw [Bool.true_or, Bool.or_true, if_pos rfl]
            split
            · rfl
            · next missing => exact absurd (if_neg missing) before

/-- What writing does: the names to which the path leads, which are no directory, lead to the
contents afterwards, and nothing else changes. The null device keeps nothing. -/
structure Writes (tree : FileTree) (path : Path) (contents : Contents) (names : List Name)
    (next : FileTree) : Prop where
  resolved : tree.resolve path = .ok names
  notDirectory : tree.node names ≠ .directory
  node_eq : ∀ other, next.node other =
    if other = names ∧ names ≠ nullDevice then .file contents else tree.node other

/-- Writing that succeeds does what it should. -/
theorem exists_writes (written : tree.write path contents = .ok next) :
    ∃ names, tree.Writes path contents names next := by
  rw [write, bind_eq_ok_iff] at written
  obtain ⟨first, started, followed⟩ := written
  dsimp only at followed
  split at followed
  · -- A path that ends in a slash names no file.
    obtain ⟨_, _, checked⟩ := bind_eq_ok_iff.mp followed
    obtain ⟨_, _, thrown⟩ := bind_eq_ok_iff.mp checked
    cases thrown
  · obtain ⟨names, resolved, placed⟩ := bind_eq_ok_iff.mp followed
    have whole : tree.resolve path = .ok names := bind_eq_ok_iff.mpr ⟨first, started, resolved⟩
    split at placed
    · cases placed
    · next notDirectory =>
        obtain rfl := pure_eq_ok_iff.mp placed
        refine ⟨names, whole, notDirectory, ?_⟩
        intro other
        by_cases isNull : names = nullDevice
        · rw [if_pos isNull, if_neg fun target => target.2 isNull]
        · rw [if_neg isNull, node_put (reached_of_resolve whole) isNull]
          simp only [isNull, ne_eq, not_false_eq_true, and_true]

theorem read_eq_ok_iff : tree.read path = .ok contents ↔
    ∃ names, tree.resolve path = .ok names ∧ tree.node names = .file contents := by
  rw [read, bind_eq_ok_iff]
  apply exists_congr
  intro names
  apply and_congr_right
  intro _
  cases tree.node names with
  | directory => simp
  | file held => simp [pure_eq_ok_iff]
  | absent => simp

namespace Writes

theorem sameDirectories (writes : tree.Writes path contents names next) :
    tree.SameDirectories next := by
  intro other
  rw [writes.node_eq]
  split
  · next isTarget =>
      apply iff_of_false
      · rw [isTarget.1]
        exact writes.notDirectory
      · exact nofun
  · rfl

/-- The path leads to the same names afterwards. -/
theorem resolve_next (writes : tree.Writes path contents names next) :
    next.resolve path = .ok names :=
  writes.sameDirectories.resolve writes.resolved

theorem node_next (writes : tree.Writes path contents names next) (kept : names ≠ nullDevice) :
    next.node names = .file contents := by
  rw [writes.node_eq, if_pos ⟨rfl, kept⟩]

/-- What is written can be read, unless it goes to the null device. -/
theorem read_next (writes : tree.Writes path contents names next) (kept : names ≠ nullDevice) :
    next.read path = .ok contents :=
  read_eq_ok_iff.mpr ⟨names, writes.resolve_next, writes.node_next kept⟩

theorem node_next_of_ne (writes : tree.Writes path contents names next) {other : List Name}
    (differ : other ≠ names) : next.node other = tree.node other := by
  rw [writes.node_eq, if_neg fun isTarget => differ isTarget.1]

end Writes

end ChipAsm.Command.FileTree
