/-
Module: HermesNode.Lib.FileSys
Purpose: A POSIX filesystem at the level of single system calls. Names map to inodes, inodes hold
  bytes; a descriptor is an inode and stays valid when its name is unlinked or renamed over.
  `rename` is one step. Directories are not modelled: a call that misses one fails, and failing is
  always possible.
Trusted boundary: human-reviewed spec (POSIX `open`, `write`, `rename`, `unlink`)
Main exports: FileSys, FileSys.create, FileSys.writeAt, FileSys.rename
-/
import Mathlib.Logic.Function.Basic
import HermesNode.Lib.Buffer

namespace HermesNode

structure FileSys where
  names : Bytes → Option Nat
  content : Nat → Bytes
  /-- Inodes handed out so far: every inode in use is below it. -/
  next : Nat

namespace FileSys

def empty : FileSys := { names := fun _ => none, content := fun _ => [], next := 0 }

/-- `open(name, O_WRONLY | O_CREAT | O_TRUNC)`: the inode behind the descriptor. -/
def create (fs : FileSys) (name : Bytes) : Nat × FileSys :=
  match fs.names name with
  | some inode => (inode, { fs with content := Function.update fs.content inode [] })
  | none =>
      (fs.next,
        { names := Function.update fs.names name (some fs.next)
          content := Function.update fs.content fs.next []
          next := fs.next + 1 })

/-- `write` of `data` through a descriptor positioned at `offset`. -/
def writeAt (fs : FileSys) (inode offset : Nat) (data : Bytes) : FileSys :=
  let old := fs.content inode
  { fs with
    content := Function.update fs.content inode
      (old.take offset ++ data ++ old.drop (offset + data.length)) }

/-- `rename(old, new)`: the name `new` moves to the inode of `old` in one step. -/
def rename (fs : FileSys) (old new : Bytes) : Option FileSys :=
  match fs.names old with
  | none => none
  | some inode =>
      some { fs with
        names := Function.update (Function.update fs.names old none) new (some inode) }

/-- `unlink(name)`: open descriptors keep the inode. -/
def unlink (fs : FileSys) (name : Bytes) : FileSys :=
  { fs with names := Function.update fs.names name none }

theorem unlink_names {fs : FileSys} {name n : Bytes} {i : Nat}
    (h : (fs.unlink name).names n = some i) : fs.names n = some i ∧ n ≠ name := by
  by_cases heq : n = name
  · simp [unlink, heq] at h
  · exact ⟨by simpa [unlink, heq] using h, heq⟩

/-- Creating a name that is not bound takes a new inode. -/
theorem create_fresh {fs : FileSys} {name : Bytes} (h : fs.names name = none) :
    fs.create name =
      (fs.next,
        { names := Function.update fs.names name (some fs.next)
          content := Function.update fs.content fs.next []
          next := fs.next + 1 }) := by
  simp [create, h]

theorem writeAt_append (fs : FileSys) (inode : Nat) (data : Bytes) :
    (fs.writeAt inode (fs.content inode).length data).content inode =
      fs.content inode ++ data := by
  simp [writeAt]

theorem writeAt_other {fs : FileSys} {inode other offset : Nat} {data : Bytes}
    (h : other ≠ inode) : (fs.writeAt inode offset data).content other = fs.content other := by
  simp [writeAt, h]

theorem rename_eq {fs fs' : FileSys} {old new : Bytes} (h : fs.rename old new = some fs') :
    ∃ inode, fs.names old = some inode ∧ fs' = { fs with
      names := Function.update (Function.update fs.names old none) new (some inode) } := by
  unfold rename at h
  cases hold : fs.names old with
  | none => simp [hold] at h
  | some inode => exact ⟨inode, rfl, by simpa [hold] using h.symm⟩

/-! ### Writing aside and renaming -/

/-- The bytes behind a name. -/
def read (fs : FileSys) (name : Bytes) : Option Bytes := (fs.names name).map fs.content

def Bounded (fs : FileSys) : Prop := ∀ name inode, fs.names name = some inode → inode < fs.next

/-- No other name is a link to the file of this one. -/
def Alone (fs : FileSys) (name : Bytes) : Prop :=
  ∀ other inode, fs.names name = some inode → fs.names other = some inode → other = name

/-- Since `before`, only the file `inode` behind the name `draft` has been made and written to. -/
structure Drafting (before fs : FileSys) (draft : Bytes) (inode : Nat) : Prop where
  bound : fs.names draft = some inode
  names : ∀ n, n ≠ draft → fs.names n = before.names n
  apart : ∀ n, n ≠ draft → fs.names n ≠ some inode
  content : ∀ i, i ≠ inode → fs.content i = before.content i
  bounded : fs.Bounded

theorem create_drafting {fs : FileSys} {name : Bytes} (hb : fs.Bounded) (halone : fs.Alone name) :
    Drafting fs (fs.create name).2 name (fs.create name).1 ∧
      (fs.create name).2.content (fs.create name).1 = [] := by
  cases hname : fs.names name with
  | some inode =>
      simp only [create, hname]
      refine ⟨⟨hname, fun n _ => rfl, ?_, ?_, hb⟩, by simp⟩
      · intro n hn hsame
        exact hn (halone n inode hname hsame)
      · intro i hi
        simp [hi]
  | none =>
      rw [create_fresh hname]
      refine ⟨⟨by simp, ?_, ?_, ?_, ?_⟩, by simp⟩
      · intro n hn
        simp [hn]
      · intro n hn hsame
        have hold : fs.names n = some fs.next := by simpa [hn] using hsame
        exact absurd (hb n _ hold) (Nat.lt_irrefl _)
      · intro i hi
        simp [hi]
      · intro n inode hn
        by_cases heq : n = name
        · have hinode : fs.next = inode := by simpa [heq] using hn
          show inode < fs.next + 1
          omega
        · have hold : fs.names n = some inode := by simpa [heq] using hn
          exact Nat.lt_succ_of_lt (hb n inode hold)

namespace Drafting

variable {before fs : FileSys} {draft : Bytes} {inode : Nat}

theorem writeAt (h : Drafting before fs draft inode) (offset : Nat) (data : Bytes) :
    Drafting before (fs.writeAt inode offset data) draft inode where
  bound := h.bound
  names := h.names
  apart := h.apart
  content i hi := by
    rw [writeAt_other hi]
    exact h.content i hi
  bounded := h.bounded

theorem read_eq (h : Drafting before fs draft inode) {n : Bytes} (hn : n ≠ draft) :
    fs.read n = before.read n := by
  unfold read
  rw [h.names n hn]
  cases hold : before.names n with
  | none => rfl
  | some i =>
      have hi : i ≠ inode := by
        rintro rfl
        exact h.apart n hn ((h.names n hn).trans hold)
      rw [Option.map_some, Option.map_some, h.content i hi]

/-- Giving up: the name is removed again. -/
theorem read_unlink (h : Drafting before fs draft inode) {n : Bytes} (hn : n ≠ draft) :
    (fs.unlink draft).read n = before.read n := by
  rw [← h.read_eq hn]
  simp [read, unlink, hn]

theorem rename (h : Drafting before fs draft inode) {target : Bytes} (hne : draft ≠ target) :
    ∃ fs', fs.rename draft target = some fs' ∧ fs'.Bounded ∧
      fs'.read target = some (fs.content inode) ∧
      (∀ n, n ≠ draft → n ≠ target → fs'.read n = before.read n) ∧
      ∀ n, n ≠ target → before.Alone n → fs'.Alone n := by
  let names := Function.update (Function.update fs.names draft none) target (some inode)
  refine ⟨{ fs with names }, by simp [FileSys.rename, h.bound, names], ?_, by simp [read, names],
    ?_, ?_⟩
  · intro n i hn
    by_cases htarget : n = target
    · have hi : inode = i := by simpa [names, htarget] using hn
      rw [← hi]
      exact h.bounded draft inode h.bound
    · by_cases hdraft : n = draft
      · simp [names, hdraft, hne] at hn
      · exact h.bounded n i (by simpa [names, htarget, hdraft] using hn)
  · intro n hdraft htarget
    rw [← h.read_eq hdraft]
    simp [read, names, hdraft, htarget]
  · intro n htarget halone other i hn hother
    by_cases hdraft : n = draft
    · simp [names, hdraft, hne] at hn
    · have hold : fs.names n = some i := by simpa [names, htarget, hdraft] using hn
      by_cases hotherTarget : other = target
      · have hi : inode = i := by simpa [names, hotherTarget] using hother
        rw [← hi] at hold
        exact absurd hold (h.apart n hdraft)
      · by_cases hotherDraft : other = draft
        · simp [names, hotherDraft, hne] at hother
        · have hotherOld : fs.names other = some i := by
            simpa [names, hotherTarget, hotherDraft] using hother
          rw [h.names n hdraft] at hold
          rw [h.names other hotherDraft] at hotherOld
          exact halone other i hold hotherOld

end Drafting

end FileSys

end HermesNode
