/-
Module: HermesNode.Build.AtomicWrite
Purpose: `writeFileAtomically`: a temporary file beside the target, a write loop, `close`, and a
  rename. What each system call returns is a parameter. The function leaves every name but its
  temporary one and its target as it found it, and touches the target only when it succeeds.
Trusted boundary: human-reviewed spec (transcribed from `lib/bundle/atomic_write.cpp`)
Main exports: SysCalls, writeFileAtomically, writeFileAtomically_spec
-/
import HermesNode.Lib.FileSys
import HermesNode.Build.Disk

namespace HermesNode.Build

/-- What one `write` returned. -/
inductive WriteResult where
  | wrote (n : Nat)
  /-- `EINTR`. -/
  | interrupted
  | failed (reason : Bytes)
deriving Repr, DecidableEq

/-- What the system calls of one `writeFileAtomically` return. A reason is the text of its `errno`.
-/
structure SysCalls where
  openError : Option Bytes := none
  writes : List WriteResult := []
  closeError : Option Bytes := none
  renameError : Option Bytes := none
  /-- The `unlink` of the temporary file, whose result is not looked at, removes it. -/
  unlinks : Bool := true
deriving Repr, DecidableEq

/-- `tmp`. -/
def tempName (outPath : Bytes) (pid counter : Nat) : Bytes :=
  outPath ++ ascii "." ++ decimal pid ++ ascii "." ++ decimal counter ++ ascii ".tmp"

/-- The write loop with `data` left to write at `offset`: whether it wrote everything, with the
reason if there is one. There is no answer while the loop is still going on. -/
def writeLoop (inode : Nat) : Bytes → Nat → List WriteResult → FileSys →
    Option (Except (Option Bytes) Unit × FileSys)
  | [], _, _, fs => some (.ok (), fs)
  | _ :: _, _, [], _ => none
  | b :: bs, offset, .interrupted :: results, fs => writeLoop inode (b :: bs) offset results fs
  | _ :: _, _, .failed reason :: _, fs => some (.error (some reason), fs)
  | b :: bs, offset, .wrote n :: results, fs =>
      if n = 0 then some (.error none, fs)
      else
        let data := (b :: bs).take n
        writeLoop inode ((b :: bs).drop n) (offset + data.length) results
          (fs.writeAt inode offset data)

/-- The outcome of `close` after the write loop: a failed `close` fails the write, but keeps an
earlier reason. -/
def closed (written : Except (Option Bytes) Unit) (closeError : Option Bytes) :
    Except (Option Bytes) Unit :=
  match written, closeError with
  | .ok (), some reason => .error (some reason)
  | outcome, _ => outcome

def unlinkTemp (calls : SysCalls) (fs : FileSys) (tmp : Bytes) : FileSys :=
  if calls.unlinks then fs.unlink (cstr tmp) else fs

/-- `writeFileAtomically`; an error is the text written to `err`. -/
def writeFileAtomically (pid counter : Nat) (calls : SysCalls) (outPath data : Bytes)
    (fs : FileSys) : Option (Except Bytes Unit × FileSys) :=
  let tmp := tempName outPath pid counter
  match calls.openError with
  | some reason =>
      some (.error (ascii "error: cannot open " ++ tmp ++ ascii " for writing: " ++ reason ++
        ascii "\n"), fs)
  | none =>
      let opened := fs.create (cstr tmp)
      match writeLoop opened.1 data 0 calls.writes opened.2 with
      | none => none
      | some (written, fs) =>
          match closed written calls.closeError with
          | .error (some reason) =>
              some (.error (ascii "error: failed writing " ++ tmp ++ ascii ": " ++ reason ++
                ascii "\n"), unlinkTemp calls fs tmp)
          | .error none =>
              some (.error (ascii "error: failed writing " ++ tmp ++ ascii "\n"),
                unlinkTemp calls fs tmp)
          | .ok () =>
              match calls.renameError, fs.rename (cstr tmp) (cstr outPath) with
              | none, some fs' => some (.ok (), fs')
              | reason, _ =>
                  some (.error (ascii "error: failed to rename " ++ tmp ++ ascii " to " ++
                    outPath ++ ascii ": " ++ reason.getD [] ++ ascii "\n"),
                    unlinkTemp calls fs tmp)

/-! ### What it leaves -/

/-- The results of the calls are those of a write that goes through. -/
def writesThrough : Bytes → List WriteResult → Bool
  | [], _ => true
  | _ :: _, [] => false
  | b :: bs, .interrupted :: results => writesThrough (b :: bs) results
  | _ :: _, .failed _ :: _ => false
  | b :: bs, .wrote n :: results =>
      if n = 0 then false else writesThrough ((b :: bs).drop n) results

def SysCalls.succeed (calls : SysCalls) (data : Bytes) : Bool :=
  calls.openError.isNone && writesThrough data calls.writes && calls.closeError.isNone &&
    calls.renameError.isNone

theorem writeLoop_drafting {before : FileSys} {draft : Bytes} {inode : Nat} {data : Bytes}
    {offset : Nat} {results : List WriteResult} {fs : FileSys}
    {outcome : Except (Option Bytes) Unit} {fs' : FileSys}
    (hd : before.Drafting fs draft inode) (hoffset : offset = (fs.content inode).length)
    (h : writeLoop inode data offset results fs = some (outcome, fs')) :
    before.Drafting fs' draft inode ∧ (outcome = .ok () ↔ writesThrough data results = true) ∧
      (outcome = .ok () → fs'.content inode = fs.content inode ++ data) := by
  induction data, offset, results, fs using writeLoop.induct inode with
  | case1 results offset fs =>
      simp only [writeLoop, Option.some.injEq, Prod.mk.injEq] at h
      obtain ⟨rfl, rfl⟩ := h
      exact ⟨hd, by simp [writesThrough], by simp⟩
  | case2 b bs offset fs => simp [writeLoop] at h
  | case3 b bs offset results fs ih =>
      simp only [writeLoop] at h
      simpa only [writesThrough] using ih hd hoffset h
  | case4 b bs offset reason results fs =>
      simp only [writeLoop, Option.some.injEq, Prod.mk.injEq] at h
      obtain ⟨rfl, rfl⟩ := h
      exact ⟨hd, by simp [writesThrough], by simp⟩
  | case5 b bs offset results fs =>
      simp only [writeLoop, if_true, Option.some.injEq, Prod.mk.injEq] at h
      obtain ⟨rfl, rfl⟩ := h
      exact ⟨hd, by simp [writesThrough], by simp⟩
  | case6 b bs offset n results fs hn data ih =>
      simp only [writeLoop, if_neg hn] at h
      have hwrite : (fs.writeAt inode offset data).content inode = fs.content inode ++ data := by
        rw [hoffset]
        exact FileSys.writeAt_append fs inode data
      have hnext : offset + data.length =
          ((fs.writeAt inode offset data).content inode).length := by
        rw [hwrite, List.length_append, hoffset]
      obtain ⟨hd', hiff, hall⟩ := ih (hd.writeAt offset data) hnext h
      refine ⟨hd', ?_, ?_⟩
      · rw [hiff, writesThrough, if_neg hn]
      · intro hok
        rw [hall hok, hwrite, List.append_assoc, List.take_append_drop]

theorem closed_ok_iff {written : Except (Option Bytes) Unit} {closeError : Option Bytes} :
    closed written closeError = .ok () ↔ written = .ok () ∧ closeError = none := by
  cases written with
  | error reason => cases closeError <;> simp [closed]
  | ok u => cases closeError <;> simp [closed]

/-- What a successful `writeFileAtomically` leaves behind. -/
structure Installed (before after : FileSys) (target data : Bytes) : Prop where
  bounded : after.Bounded
  read : after.read target = some data
  alone : ∀ n, n ≠ target → before.Alone n → after.Alone n

theorem unlinkTemp_read {calls : SysCalls} {before fs : FileSys} {tmp : Bytes} {inode : Nat}
    (hd : before.Drafting fs (cstr tmp) inode) {n : Bytes} (hn : n ≠ cstr tmp) :
    (unlinkTemp calls fs tmp).read n = before.read n := by
  unfold unlinkTemp
  split
  · exact hd.read_unlink hn
  · exact hd.read_eq hn

section

variable {pid counter : Nat} {calls : SysCalls} {outPath data : Bytes} {fs fs' : FileSys}
  {outcome : Except Bytes Unit}

/-- A temporary name that is no link to another file, and is not the target: the write succeeds
exactly when its calls do. Then the target holds the data; else it is as it was. No other name is
touched. -/
theorem writeFileAtomically_spec (hb : fs.Bounded)
    (halone : fs.Alone (cstr (tempName outPath pid counter)))
    (hne : cstr (tempName outPath pid counter) ≠ cstr outPath)
    (h : writeFileAtomically pid counter calls outPath data fs = some (outcome, fs')) :
    (outcome = .ok () ↔ calls.succeed data = true) ∧
      (outcome = .ok () → Installed fs fs' (cstr outPath) data) ∧
      ∀ n, n ≠ cstr (tempName outPath pid counter) →
        (outcome = .ok () → n ≠ cstr outPath) → fs'.read n = fs.read n := by
  obtain ⟨hdraft, hempty⟩ := FileSys.create_drafting hb halone
  cases hopen : calls.openError with
  | some reason =>
      simp only [writeFileAtomically, hopen, Option.some.injEq, Prod.mk.injEq] at h
      obtain ⟨rfl, rfl⟩ := h
      exact ⟨by simp [SysCalls.succeed, hopen], nofun, fun n _ _ => rfl⟩
  | none =>
      simp only [writeFileAtomically, hopen] at h
      split at h
      · cases h
      · rename_i written fs₁ hloop
        obtain ⟨hd, hthrough, hdata⟩ := writeLoop_drafting hdraft (by simp [hempty]) hloop
        rw [hempty, List.nil_append] at hdata
        have hfailed : closed written calls.closeError ≠ .ok () → calls.succeed data = false := by
          intro hclosed
          by_contra hsucceed
          simp only [SysCalls.succeed, Bool.not_eq_false, Bool.and_eq_true,
            Option.isNone_iff_eq_none] at hsucceed
          exact hclosed (closed_ok_iff.mpr ⟨hthrough.mpr hsucceed.1.1.2, hsucceed.1.2⟩)
        split at h
        · rename_i hclosed
          cases h
          exact ⟨by simp [hfailed (by simp [hclosed])], nofun, fun n hn _ => unlinkTemp_read hd hn⟩
        · rename_i hclosed
          cases h
          exact ⟨by simp [hfailed (by simp [hclosed])], nofun, fun n hn _ => unlinkTemp_read hd hn⟩
        · rename_i hclosed
          obtain ⟨hwritten, hclose⟩ := closed_ok_iff.mp hclosed
          obtain ⟨fs₂, hrename, hb₂, hread₂, hothers₂, halone₂⟩ := hd.rename hne
          rw [hrename] at h
          cases hrenameError : calls.renameError with
          | some reason =>
              simp only [hrenameError] at h
              cases h
              exact ⟨by simp [SysCalls.succeed, hrenameError], nofun,
                fun n hn _ => unlinkTemp_read hd hn⟩
          | none =>
              simp only [hrenameError] at h
              cases h
              refine ⟨?_, ?_, ?_⟩
              · simp [SysCalls.succeed, hopen, hclose, hrenameError, hthrough.mp hwritten]
              · intro _
                exact ⟨hb₂, by rw [hread₂, hdata hwritten], halone₂⟩
              · intro n hn htarget
                exact hothers₂ n hn (htarget rfl)

end

end HermesNode.Build
