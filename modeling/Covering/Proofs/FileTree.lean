import Covering.FileTree
import Covering.Proofs.Checks
import Mathlib.Tactic.ByContra

/-!
# Writing and reading files

What is written to a file is read from it, by any path that leads there, and
writing one file leaves the others alone.

The delicate part is not the contents but the paths. A path is walked through
the files and directories there are, so a file that is written could get in the
way of paths, or open new ones by making directories of what lies above it. It
does neither. A path leads to a place for a file only through directories that
are there already, and there is no directory at that place itself
(`canHold_of_target`); so writing a file there changes which file is at that
place, and nothing else that a walk looks at (`isDirectory_put`). A path leads
to the same places before and after (`target_put_iff`).

Only what is said about contents depends on what a place does with what is
written to it: a device loses it, and other places refuse it. A place that does
neither keeps what is written (`FileTree.Keeps`).

## Main definitions

* `FileTree.CanHold`: The places where a file can be.
* `FileTree.LeadsTo`: A walk that ends at a place for a file.
* `FileTree.Keeps`: The places that take and keep what is written to them.
* `FileTree.CanWrite`, `FileTree.CanReadBack`: The paths that something can be
  written to, and those that it can be read from then.
* `FileTree.SamePlaces`: Trees in which paths lead to the same places.
* `FileTree.Written`: The path of a file that has been written.
* `FileTree.SameBut`: Trees that differ in one file at most.
* `FileTree.Holds`: A path that leads to a file with some contents.

## Theorems

* `canHold_of_target`: Paths lead to places where a file can be.
* `isFile_put_iff`, `isDirectory_put`: What writing a file changes.
* `target_put_iff`: Paths lead where they led before.
* `contents?_put_self`, `contents?_put_of_ne`: What is written is there.
* `exists_write_eq_ok_iff`: Writing succeeds where it can.
* `read_eq`, `exists_read_eq_ok_iff`: What is there is read.
* `SameBut.read_put`: What is written is read, whatever else is written then.
* `decodeText_toUTF8`: Text is read as text.
-/

namespace Covering

namespace Location

/-- Whatever leads up to a way up only goes up. -/
theorem isAncestor_of_prefix {p place : Location} (h : place.isAncestor = true)
    (hp : p <+: place) : p.isAncestor = true := by
  rw [isAncestor, List.all_eq_true] at h ⊢
  exact fun name hname => h name (hp.subset hname)

end Location

namespace FileTree

variable {tree : FileTree} {place p q : Location} {path : String} {bytes : ByteArray}

theorem isDirectory_root (tree : FileTree) : tree.isDirectory Location.root = true := by
  rw [isDirectory, decide_eq_true rfl]
  rfl

theorem isDirectory_of_isAncestor (tree : FileTree) (h : p.isAncestor = true) :
    tree.isDirectory p = true := by
  rw [isDirectory, h, Bool.or_true]
  rfl

/-- The places where a file can be: all above it are directories, and it is no
    directory itself. If there is no file yet, its name is not too long for
    one. -/
structure CanHold (tree : FileTree) (place : Location) : Prop where
  above : ∀ p, p <+: place → p ≠ place → tree.isDirectory p = true
  free : tree.isFile place = true ∨
    tree.isDirectory place = false ∧ ∀ name, place.getLast? = some name → absence name = .notFound

/-- The walk ends at a place where there is a file, or where there could be
    one. -/
def LeadsTo (found : Except FileFault Found) (place : Location) : Prop :=
  found = .ok (.file place) ∨ found = .ok (.vacant place)

theorem not_leadsTo_blocked (fault : FileFault) (rest : List String) :
    ¬ LeadsTo (blocked fault rest) place := by
  rw [blocked, LeadsTo]
  split <;> simp only [reduceCtorEq, or_self, not_false_eq_true, Except.ok.injEq]

/-- A path has a target when its walk leads to a place for a file. -/
theorem target_eq_ok_iff : tree.target path = .ok place ↔ LeadsTo (tree.find path) place := by
  rw [target, LeadsTo]
  cases tree.find path with
  | error e => simp only [bind, Except.bind, reduceCtorEq, or_self]
  | ok found =>
      cases found with
      | file at_ =>
          simp only [bind, Except.bind, pure, Except.pure, Except.ok.injEq, Found.file.injEq,
            reduceCtorEq, or_false]
      | directory at_ =>
          simp only [bind, Except.bind, throw, throwThe, MonadExceptOf.throw, reduceCtorEq,
            Except.ok.injEq, or_self]
      | vacant at_ =>
          simp only [bind, Except.bind, pure, Except.pure, Except.ok.injEq, Found.vacant.injEq,
            reduceCtorEq, false_or]
      | noDirectory fault =>
          simp only [bind, Except.bind, throw, throwThe, MonadExceptOf.throw, reduceCtorEq,
            Except.ok.injEq, or_self]

/-- A path that leads somewhere has a name in it. -/
theorem ne_empty_of_target (h : tree.target path = .ok place) : path ≠ "" := by
  rintro rfl
  have hfind : tree.find "" = .error .notFound := rfl
  rw [target_eq_ok_iff, hfind, LeadsTo] at h
  exact absurd h (by simp only [reduceCtorEq, or_self, not_false_eq_true])

section Walk

/-- All that a way leads through are directories. -/
def Walkable (tree : FileTree) (place : Location) : Prop :=
  ∀ p, p <+: place → tree.isDirectory p = true

theorem walkable_nil (tree : FileTree) : tree.Walkable [] := by
  intro p hp
  rw [List.prefix_nil.1 hp]
  exact isDirectory_of_isAncestor tree rfl

theorem walkable_root (tree : FileTree) : tree.Walkable Location.root := by
  intro p hp
  rcases List.prefix_cons_iff.1 hp with rfl | ⟨rest, rfl, hrest⟩
  · exact isDirectory_of_isAncestor tree rfl
  · rw [List.prefix_nil.1 hrest]
    exact isDirectory_root tree

theorem Walkable.concat (h : tree.Walkable place) {name : String}
    (hdirectory : tree.isDirectory (place ++ [name]) = true) : tree.Walkable (place ++ [name]) := by
  intro p hp
  rcases List.prefix_concat_iff.1 hp with rfl | hp
  · exact hdirectory
  · exact h p hp

theorem Walkable.parent (h : tree.Walkable place) : tree.Walkable place.parent := by
  rw [Location.parent]
  by_cases hroot : place = Location.root
  · rw [if_pos hroot]
    exact walkable_root tree
  · rw [if_neg hroot]
    by_cases hancestor : place.isAncestor = true
    · -- The way goes up once more.
      rw [if_pos hancestor]
      intro p hp
      refine isDirectory_of_isAncestor tree (Location.isAncestor_of_prefix ?_ hp)
      rw [Location.isAncestor, List.all_append] at *
      rw [hancestor]
      rfl
    · rw [if_neg hancestor]
      exact fun p hp => h p (hp.trans (List.dropLast_prefix place))

/-- A walk that ends at a file ends where there is one, and one that ends at a
    vacant place ends where there is none; either way a file can be there. -/
theorem walk_spec {names : List String} (h : tree.Walkable place) :
    (tree.walk place names = .ok (.file p) → tree.isFile p = true ∧ tree.CanHold p) ∧
      (tree.walk place names = .ok (.vacant p) → tree.isFile p = false ∧ tree.CanHold p) := by
  induction names generalizing place with
  | nil => simp only [walk, Except.ok.injEq, reduceCtorEq, false_implies, and_self]
  | cons name rest ih =>
      have habove : ∀ q, q <+: place ++ [name] → q ≠ place ++ [name] →
          tree.isDirectory q = true := by
        intro q hq hne
        rcases List.prefix_concat_iff.1 hq with heq | hq
        · exact absurd heq hne
        · exact h q hq
      have hblocked (fault : FileFault) : (blocked fault rest ≠ .ok (.file p)) ∧
          blocked fault rest ≠ .ok (.vacant p) := not_or.1 (not_leadsTo_blocked fault rest)
      rw [walk]
      split
      · exact ih h
      · split
        · exact ih h.parent
        · simp only
          split
          · rename_i hfile
            split
            · -- The walk ends at this file.
              simp only [Except.ok.injEq, Found.file.injEq, reduceCtorEq, false_implies, and_true]
              rintro rfl
              exact ⟨hfile, habove, .inl hfile⟩
            · exact ⟨fun heq => absurd heq (hblocked _).1, fun heq => absurd heq (hblocked _).2⟩
          · rename_i hfile
            rw [Bool.not_eq_true] at hfile
            split
            · rename_i hdirectory
              exact ih (h.concat hdirectory)
            · rename_i hdirectory
              rw [Bool.not_eq_true] at hdirectory
              split
              · rename_i hvacant
                simp only [Except.ok.injEq, Found.vacant.injEq, reduceCtorEq, false_implies,
                  true_and]
                rintro rfl
                refine ⟨hfile, habove, .inr ⟨hdirectory, fun last hlast => ?_⟩⟩
                rw [List.getLast?_concat, Option.some.injEq] at hlast
                rw [← hlast]
                exact hvacant.2
              · exact ⟨fun heq => absurd heq (hblocked _).1, fun heq => absurd heq (hblocked _).2⟩

/-- The walk of a path begins in a directory. -/
theorem exists_walk_of_find {found : Found} (h : tree.find path = .ok found) :
    ∃ from_ names, tree.Walkable from_ ∧ tree.walk from_ names = .ok found := by
  rw [find] at h
  split at h
  · exact absurd h (by simp only [reduceCtorEq, not_false_eq_true])
  · split at h
    · exact absurd h (by simp only [reduceCtorEq, not_false_eq_true])
    · split at h
      · exact absurd h (by simp only [reduceCtorEq, not_false_eq_true])
      · split at h
        · exact ⟨_, _, walkable_root tree, h⟩
        · exact ⟨_, _, walkable_nil tree, h⟩

/-- Paths lead to places where a file can be. -/
theorem canHold_of_target (h : tree.target path = .ok place) : tree.CanHold place := by
  rcases target_eq_ok_iff.1 h with h | h
  · rcases exists_walk_of_find h with ⟨from_, names, hfrom, hwalk⟩
    exact ((walk_spec hfrom).1 hwalk).2
  · rcases exists_walk_of_find h with ⟨from_, names, hfrom, hwalk⟩
    exact ((walk_spec hfrom).2 hwalk).2

/-- A path that leads to the place of a file leads to that file. -/
theorem find_eq_file (h : tree.target path = .ok place) (hfile : tree.isFile place = true) :
    tree.find path = .ok (.file place) := by
  rcases target_eq_ok_iff.1 h with h | h
  · exact h
  · rcases exists_walk_of_find h with ⟨from_, names, hfrom, hwalk⟩
    have hnone := ((walk_spec hfrom).2 hwalk).1
    rw [hfile] at hnone
    exact absurd hnone (by decide)

end Walk

section Put

@[simp] theorem devices_put : (tree.put q bytes).devices = tree.devices := by
  rw [put]
  split <;> rfl

@[simp] theorem refusals_put : (tree.put q bytes).refusals = tree.refusals := by
  rw [put]
  split <;> rfl

/-- Writing a file makes a file of its place, unless what is written there is
    lost. -/
theorem isFile_put_iff :
    (tree.put q bytes).isFile p = true ↔
      tree.isFile p = true ∨ p = q ∧ tree.isDevice q = false := by
  rw [put]
  by_cases hdevice : tree.isDevice q = true
  · rw [if_pos hdevice, hdevice]
    exact ⟨.inl, fun h => h.resolve_right fun hq => absurd hq.2 (by decide)⟩
  · have hkept : tree.isDevice q = false := Bool.eq_false_iff.2 hdevice
    rw [if_neg hdevice]
    simp only [isFile, List.any_cons, Bool.or_eq_true, beq_iff_eq, List.any_eq_true,
      List.mem_filter, bne_iff_ne]
    constructor
    · rintro (heq | ⟨file, ⟨hfile, _⟩, hp⟩)
      · exact .inr ⟨heq.symm, hkept⟩
      · exact .inl ⟨file, hfile, hp⟩
    · rintro (⟨file, hfile, hp⟩ | ⟨heq, _⟩)
      · by_cases hq : p = q
        · exact .inl hq.symm
        · exact .inr ⟨file, ⟨hfile, by rw [hp]; exact hq⟩, hp⟩
      · exact .inl heq.symm

/-- Directories are there by themselves, or lie above a file. -/
theorem isDirectory_iff :
    tree.isDirectory p = true ↔
      (p = Location.root ∨ p.isAncestor = true ∨ ∃ d ∈ tree.directories, p <+: d) ∨
        ∃ file ∈ tree.files, p <+: file.1 ∧ p ≠ file.1 := by
  simp only [isDirectory, Bool.or_eq_true, decide_eq_true_eq, List.any_eq_true,
    List.isPrefixOf_iff_prefix, Bool.and_eq_true, bne_iff_ne, ne_comm, or_assoc]

/-- Writing a file where there can be one makes no directories. -/
theorem isDirectory_put (h : tree.CanHold q) :
    (tree.put q bytes).isDirectory p = tree.isDirectory p := by
  rw [put]
  by_cases hdevice : tree.isDevice q = true
  · rw [if_pos hdevice]
  · rw [if_neg hdevice, Bool.eq_iff_iff]
    constructor
    · intro hdirectory
      rcases isDirectory_iff.1 hdirectory with hother | ⟨file, hfile, habove, hne⟩
      · exact isDirectory_iff.2 (.inl hother)
      · rcases List.mem_cons.1 hfile with rfl | hfile
        · -- All above the new file were directories before.
          exact h.above p habove hne
        · exact isDirectory_iff.2 (.inr ⟨file, (List.mem_filter.1 hfile).1, habove, hne⟩)
    · intro hdirectory
      rcases isDirectory_iff.1 hdirectory with hother | ⟨file, hfile, habove, hne⟩
      · exact isDirectory_iff.2 (.inl hother)
      · by_cases hq : file.1 = q
        · rw [hq] at habove hne
          exact isDirectory_iff.2 (.inr ⟨_, List.mem_cons_self, habove, hne⟩)
        · exact isDirectory_iff.2 (.inr ⟨file, List.mem_cons_of_mem _
            (List.mem_filter.2 ⟨hfile, by rw [bne_iff_ne]; exact hq⟩), habove, hne⟩)

/-- A walk that comes to a place where a file can be ends there, and only if it
    has no names left. -/
theorem leadsTo_walk_cons_iff {from_ : Location} {name : String} {rest : List String}
    (hblank : ¬ (name = "" ∨ name = ".")) (hup : name ≠ "..")
    (hfree : tree.isFile (from_ ++ [name]) = true ∨
      tree.isDirectory (from_ ++ [name]) = false ∧ absence name = .notFound) :
    LeadsTo (tree.walk from_ (name :: rest)) p ↔ rest = [] ∧ p = from_ ++ [name] := by
  have hlast {found : Found} (hfound : ∀ p, LeadsTo (.ok found) p ↔ p = from_ ++ [name])
      (fault : FileFault) :
      LeadsTo (if rest.isEmpty then .ok found else blocked fault rest) p ↔
        rest = [] ∧ p = from_ ++ [name] := by
    cases rest with
    | nil =>
        rw [List.isEmpty_nil, if_pos rfl, hfound]
        exact ⟨fun heq => ⟨rfl, heq⟩, fun heq => heq.2⟩
    | cons next rest =>
        rw [List.isEmpty_cons, if_neg (by decide)]
        exact ⟨fun hleads => absurd hleads (not_leadsTo_blocked _ _),
          fun heq => absurd heq.1 (List.cons_ne_nil _ _)⟩
  rw [walk, if_neg hblank, if_neg hup]
  simp only
  by_cases hfile : tree.isFile (from_ ++ [name]) = true
  · rw [if_pos hfile]
    refine hlast (fun p => ?_) .notADirectory
    simp only [LeadsTo, Except.ok.injEq, Found.file.injEq, reduceCtorEq, or_false, eq_comm]
  · rcases hfree.resolve_left hfile with ⟨hdirectory, habsence⟩
    rw [if_neg hfile, hdirectory, if_neg (by decide)]
    simp only [habsence, and_true]
    refine hlast (fun p => ?_) .notFound
    simp only [LeadsTo, Except.ok.injEq, Found.vacant.injEq, reduceCtorEq, false_or, eq_comm]

/-- Walks lead where they led before. -/
theorem leadsTo_walk_put_iff (h : tree.CanHold q) (from_ : Location) (names : List String) :
    LeadsTo ((tree.put q bytes).walk from_ names) p ↔ LeadsTo (tree.walk from_ names) p := by
  induction names generalizing from_ with
  | nil => rfl
  | cons name rest ih =>
      by_cases hblank : name = "" ∨ name = "."
      · rw [walk, walk, if_pos hblank, if_pos hblank]
        exact ih from_
      · by_cases hup : name = ".."
        · rw [walk, walk, if_neg hblank, if_neg hblank, if_pos hup, if_pos hup]
          exact ih from_.parent
        · by_cases hq : from_ ++ [name] = q
          · -- A file can be here before and after.
            have hfree : tree.isFile (from_ ++ [name]) = true ∨
                tree.isDirectory (from_ ++ [name]) = false ∧ absence name = .notFound := by
              rw [hq]
              refine h.free.imp_right (And.imp_right fun hname => hname name ?_)
              rw [← hq, List.getLast?_concat]
            have hfree' : (tree.put q bytes).isFile (from_ ++ [name]) = true ∨
                (tree.put q bytes).isDirectory (from_ ++ [name]) = false ∧
                  absence name = .notFound := by
              rw [isDirectory_put h]
              exact hfree.imp_left fun hfile => isFile_put_iff.2 (.inl hfile)
            rw [leadsTo_walk_cons_iff hblank hup hfree, leadsTo_walk_cons_iff hblank hup hfree']
          · have hfile : (tree.put q bytes).isFile (from_ ++ [name]) =
                tree.isFile (from_ ++ [name]) := by
              rw [Bool.eq_iff_iff, isFile_put_iff]
              exact or_iff_left fun heq => hq heq.1
            rw [walk, walk, if_neg hblank, if_neg hblank, if_neg hup, if_neg hup]
            simp only [hfile, isDirectory_put h]
            split
            · rfl
            · split
              · exact ih _
              · rfl

/-- Paths lead where they led before. -/
theorem target_put_iff (h : tree.CanHold q) :
    (tree.put q bytes).target path = .ok p ↔ tree.target path = .ok p := by
  rw [target_eq_ok_iff, target_eq_ok_iff, find, find]
  split
  · rfl
  · split
    · rfl
    · split
      · rfl
      · split
        · exact leadsTo_walk_put_iff h _ _
        · exact leadsTo_walk_put_iff h _ _

/-- What is written to a file is there, unless it is lost. -/
theorem contents?_put_self (hkept : tree.isDevice q = false) :
    (tree.put q bytes).contents? q = some bytes := by
  rw [put, hkept, if_neg (by decide), contents?, List.lookup_cons, beq_self_eq_true]

/-- What is written to one file is not written to another. -/
theorem contents?_put_of_ne (hne : p ≠ q) :
    (tree.put q bytes).contents? p = tree.contents? p := by
  have hkept (files : List (Location × ByteArray)) :
      (files.filter (·.1 != q)).lookup p = files.lookup p := by
    induction files with
    | nil => rfl
    | cons file files ih =>
        rw [List.filter_cons, List.lookup_cons]
        by_cases hfile : file.1 = q
        · rw [hfile, beq_false_of_ne hne, if_neg (by rw [bne_self_eq_false]; decide), ih]
        · rw [if_pos (by rw [bne_iff_ne]; exact hfile), List.lookup_cons, ih]
  rw [put]
  split
  · rfl
  · rw [contents?, List.lookup_cons, beq_false_of_ne hne, hkept, contents?]

/-- There is a file where there are contents. -/
theorem isFile_iff : tree.isFile p = true ↔ ∃ bytes, tree.contents? p = some bytes := by
  rw [← Option.isSome_iff_exists, contents?, List.lookup_isSome_iff, isFile, List.any_eq_true]
  simp only [BEq.comm]

/-- What is there is read, by any path that leads there. -/
theorem read_eq (htarget : tree.target path = .ok place)
    (hcontents : tree.contents? place = some bytes) : tree.read path = .ok bytes := by
  rw [read, find_eq_file htarget (isFile_iff.2 ⟨_, hcontents⟩)]
  simp only [bind, Except.bind, hcontents, Option.getD_some]
  rfl

/-- Files are what can be read. -/
theorem exists_read_eq_ok_iff (htarget : tree.target path = .ok place) :
    (∃ bytes, tree.read path = .ok bytes) ↔ tree.isFile place = true := by
  constructor
  · rintro ⟨bytes, hread⟩
    rcases target_eq_ok_iff.1 htarget with h | h
    · rcases exists_walk_of_find h with ⟨from_, names, hfrom, hwalk⟩
      exact ((walk_spec hfrom).1 hwalk).1
    · rw [read, h] at hread
      exact absurd hread (by simp only [bind, Except.bind, throw, throwThe, MonadExceptOf.throw,
        reduceCtorEq, not_false_eq_true])
  · intro hfile
    rcases isFile_iff.1 hfile with ⟨bytes, hbytes⟩
    exact ⟨bytes, read_eq htarget hbytes⟩

end Put

section Write

variable {contents : ByteArray} {tree' : FileTree}

/-- The place takes whatever is written to it, and keeps it. -/
structure Keeps (tree : FileTree) (place : Location) : Prop where
  kept : tree.isDevice place = false
  taken : tree.refusal? place = none

/-- Something can be written to the path. -/
def CanWrite (tree : FileTree) (path : String) : Prop :=
  ∃ place, tree.target path = .ok place ∧ tree.refusal? place = none

/-- The path can be read when something has been written to it. A device may be one
    for writing only. -/
def CanReadBack (tree : FileTree) (path : String) : Prop :=
  ∃ place, tree.target path = .ok place ∧
    (tree.isDevice place = false ∨ tree.isFile place = true)

/-- What a place takes is put there. -/
theorem give_of_taken (h : tree.refusal? place = none) (bytes contents : ByteArray) :
    tree.give place bytes contents = .ok (tree.put place contents) := by rw [give, h]

/-- So is what has no bytes. -/
theorem give_empty (tree : FileTree) (place : Location) (contents : ByteArray) :
    tree.give place ByteArray.empty contents = .ok (tree.put place contents) := by
  rw [give]
  split <;> rfl

theorem eq_put_of_give (h : tree.give place bytes contents = .ok tree') :
    tree' = tree.put place contents := by
  rw [give] at h
  split at h
  · exact (Except.ok.inj h).symm
  · split at h
    · exact (Except.ok.inj h).symm
    · exact absurd h (by simp only [reduceCtorEq, not_false_eq_true])

/-- What has been written is in the place that the path leads to. -/
theorem exists_put_of_write (h : tree.write path bytes = .ok tree') :
    ∃ place, tree.target path = .ok place ∧ tree' = tree.put place bytes := by
  rcases bind_eq_ok_iff.1 h with ⟨place, hplace, hgive⟩
  exact ⟨place, hplace, eq_put_of_give hgive⟩

/-- The same for what has been written over a file. -/
theorem exists_put_of_overlay {offset : Nat} (h : tree.overlay path offset bytes = .ok tree') :
    ∃ place contents, tree.target path = .ok place ∧ tree' = tree.put place contents := by
  rcases bind_eq_ok_iff.1 h with ⟨place, hplace, hgive⟩
  exact ⟨place, _, hplace, eq_put_of_give hgive⟩

theorem write_of_taken (htarget : tree.target path = .ok place)
    (htaken : tree.refusal? place = none) (bytes : ByteArray) :
    tree.write path bytes = .ok (tree.put place bytes) := by
  rw [write, htarget]
  exact give_of_taken htaken bytes bytes

/-- Opening a file empties it, even if it takes nothing. -/
theorem write_empty (htarget : tree.target path = .ok place) :
    tree.write path ByteArray.empty = .ok (tree.put place ByteArray.empty) := by
  rw [write, htarget]
  exact give_empty tree place ByteArray.empty

/-- Writing succeeds where it can. -/
theorem exists_write_eq_ok_iff (h : bytes.isEmpty = false) :
    (∃ tree', tree.write path bytes = .ok tree') ↔ tree.CanWrite path := by
  constructor
  · rintro ⟨tree', hwrite⟩
    rcases bind_eq_ok_iff.1 hwrite with ⟨place, hplace, hgive⟩
    refine ⟨place, hplace, ?_⟩
    rw [give, h] at hgive
    split at hgive
    · assumption
    · exact absurd hgive (by simp only [Bool.false_eq_true, if_false, reduceCtorEq,
        not_false_eq_true])
  · rintro ⟨place, hplace, htaken⟩
    exact ⟨_, write_of_taken hplace htaken bytes⟩

end Write

/-- Paths lead to the same places in both trees, and the places do the same with what
    is written to them. Files that are there stay, and no device becomes one. -/
structure SamePlaces (tree tree' : FileTree) : Prop where
  devices_eq : tree'.devices = tree.devices
  refusals_eq : tree'.refusals = tree.refusals
  target_iff : ∀ path place, tree'.target path = .ok place ↔ tree.target path = .ok place
  isFile_of_isFile : ∀ place, tree.isFile place = true → tree'.isFile place = true
  isFile_of_isDevice : ∀ place, tree.isDevice place = true → tree'.isFile place = true →
    tree.isFile place = true

/-- What was written to the path in one tree is a file in the other one, unless it was
    lost. -/
def Written (tree tree' : FileTree) (path : String) : Prop :=
  ∀ place, tree.target path = .ok place → tree.isDevice place = false →
    tree'.isFile place = true

namespace SamePlaces

variable {tree' tree'' : FileTree}

theorem refl (tree : FileTree) : SamePlaces tree tree :=
  ⟨rfl, rfl, fun _ _ => Iff.rfl, fun _ h => h, fun _ _ h => h⟩

theorem isDevice_eq (h : SamePlaces tree tree') (p : Location) :
    tree'.isDevice p = tree.isDevice p := by rw [isDevice, isDevice, h.devices_eq]

theorem trans (h : SamePlaces tree tree') (h' : SamePlaces tree' tree'') :
    SamePlaces tree tree'' where
  devices_eq := h'.devices_eq.trans h.devices_eq
  refusals_eq := h'.refusals_eq.trans h.refusals_eq
  target_iff path place := (h'.target_iff path place).trans (h.target_iff path place)
  isFile_of_isFile place hfile := h'.isFile_of_isFile place (h.isFile_of_isFile place hfile)
  isFile_of_isDevice place hdevice hfile := h.isFile_of_isDevice place hdevice
    (h'.isFile_of_isDevice place ((h.isDevice_eq place).trans hdevice) hfile)

theorem refusal?_eq (h : SamePlaces tree tree') (p : Location) :
    tree'.refusal? p = tree.refusal? p := by rw [refusal?, refusal?, h.refusals_eq]

theorem keeps_iff (h : SamePlaces tree tree') : tree'.Keeps p ↔ tree.Keeps p := by
  constructor <;> rintro ⟨hkept, htaken⟩
  · exact ⟨h.isDevice_eq p ▸ hkept, h.refusal?_eq p ▸ htaken⟩
  · exact ⟨(h.isDevice_eq p).trans hkept, (h.refusal?_eq p).trans htaken⟩

/-- The same paths can be written to. -/
theorem canWrite_iff (h : SamePlaces tree tree') : tree'.CanWrite path ↔ tree.CanWrite path := by
  simp only [CanWrite, h.target_iff, h.refusal?_eq]

/-- It was written in an earlier tree as well. -/
theorem written (h : SamePlaces tree tree') (hwritten : tree'.Written tree'' path) :
    tree.Written tree'' path := fun place hplace hkept =>
  hwritten place ((h.target_iff path place).2 hplace) ((h.isDevice_eq place).trans hkept)

/-- And is a file in a later one. -/
theorem written_of_written (h : SamePlaces tree' tree'') (hwritten : tree.Written tree' path) :
    tree.Written tree'' path := fun place hplace hkept =>
  h.isFile_of_isFile place (hwritten place hplace hkept)

/-- A file that has been written can be read, unless it is a device that cannot. -/
theorem exists_read_iff (h : SamePlaces tree tree') (hcan : tree.CanWrite path)
    (hwritten : tree.Written tree' path) :
    (∃ bytes, tree'.read path = .ok bytes) ↔ tree.CanReadBack path := by
  rcases hcan with ⟨place, hplace, -⟩
  rw [exists_read_eq_ok_iff ((h.target_iff path place).2 hplace)]
  constructor
  · intro hfile
    refine ⟨place, hplace, ?_⟩
    cases hdevice : tree.isDevice place with
    | false => exact .inl rfl
    | true => exact .inr (h.isFile_of_isDevice place hdevice hfile)
  · rintro ⟨p, hp, hkept | hfile⟩
    · exact hwritten place hplace (Except.ok.inj (hplace.symm.trans hp) ▸ hkept)
    · exact Except.ok.inj (hplace.symm.trans hp) ▸ h.isFile_of_isFile p hfile

end SamePlaces

/-- The trees are the same but for the file that the path leads to, if any. -/
structure SameBut (path? : Option String) (tree tree' : FileTree) : Prop
    extends SamePlaces tree tree' where
  contents?_eq : ∀ place, (∀ path, path? = some path → tree.target path ≠ .ok place) →
    tree'.contents? place = tree.contents? place

namespace SameBut

variable {path? : Option String} {tree' tree'' : FileTree}

theorem refl (path? : Option String) (tree : FileTree) : SameBut path? tree tree :=
  ⟨.refl tree, fun _ _ => rfl⟩

theorem trans (h : SameBut path? tree tree') (h' : SameBut path? tree' tree'') :
    SameBut path? tree tree'' where
  toSamePlaces := h.toSamePlaces.trans h'.toSamePlaces
  contents?_eq place hclear := by
    rw [h'.contents?_eq place fun path hpath htarget =>
      hclear path hpath ((h.target_iff path place).1 htarget), h.contents?_eq place hclear]

/-- Writing the file leaves the tree the same but for it. -/
theorem put (h : tree.target path = .ok q) : SameBut (some path) tree (tree.put q bytes) where
  devices_eq := devices_put
  refusals_eq := refusals_put
  target_iff _ _ := target_put_iff (canHold_of_target h)
  isFile_of_isFile _ hfile := isFile_put_iff.2 (.inl hfile)
  isFile_of_isDevice _ hdevice hfile := by
    refine (isFile_put_iff.1 hfile).resolve_right ?_
    rintro ⟨rfl, hkept⟩
    rw [hkept] at hdevice
    exact absurd hdevice (by decide)
  contents?_eq _ hclear := contents?_put_of_ne fun heq => hclear path rfl (heq ▸ h)

/-- A file that is written is read from a tree that is the same but for other
    files. -/
theorem read_put (htarget : tree.target path = .ok q) (hkept : tree.isDevice q = false)
    (h : SameBut path? (tree.put q bytes) tree')
    (hclear : ∀ log, path? = some log → tree.target log ≠ .ok q) :
    tree'.read path = .ok bytes := by
  have hput : ∀ log place,
      (tree.put q bytes).target log = .ok place ↔ tree.target log = .ok place := fun _ _ =>
    target_put_iff (canHold_of_target htarget)
  refine read_eq ((h.target_iff path q).2 ((hput path q).2 htarget)) ?_
  rw [h.contents?_eq q fun log hlog heq => hclear log hlog ((hput log q).1 heq),
    contents?_put_self hkept]

end SameBut

/-- The path leads to a file with these contents. -/
structure Holds (tree : FileTree) (path : String) (p : Location) (bytes : ByteArray) : Prop where
  target : tree.target path = .ok p
  contents : tree.contents? p = some bytes

namespace Holds

/-- They are read. -/
theorem read_eq (h : tree.Holds path p bytes) : tree.read path = .ok bytes :=
  FileTree.read_eq h.target h.contents

/-- They stay when other files are written. -/
theorem sameBut {path? : Option String} {tree' : FileTree} (h : tree.Holds path p bytes)
    (hsame : SameBut path? tree tree')
    (hclear : ∀ other, path? = some other → tree.target other ≠ .ok p) :
    tree'.Holds path p bytes where
  target := (hsame.target_iff path p).2 h.target
  contents := (hsame.contents?_eq p hclear).trans h.contents

end Holds

end FileTree

/-- Text that is written is read as the same text. -/
theorem decodeText_toUTF8 (text : String) : decodeText text.toUTF8 = .ok text := by
  have hvalid : String.fromUTF8? text.toUTF8 = some text := by
    rw [String.fromUTF8?, String.toUTF8_eq_toByteArray, dif_pos text.isValidUTF8]
    rfl
  rw [decodeText, hvalid]

end Covering
