/-
Module: HermesNode.Lib.Segments
Purpose: Splitting a byte string at its slashes and joining it back. A path is its list of
  segments; empty segments record leading, doubled and trailing slashes.
Trusted boundary: none
Main exports: slash, splitSlash, joinSlash_splitSlash, splitSlash_joinSlash
-/
import HermesNode.Lib.Buffer

namespace HermesNode

/-- The path separator. -/
def slash : UInt8 := 47

/-- The pieces of `p` between its slashes: one more than it has slashes. -/
def splitSlash : Bytes → List Bytes
  | [] => [[]]
  | c :: cs =>
      if c = slash then [] :: splitSlash cs
      else
        match splitSlash cs with
        | [] => [[c]]
        | seg :: segs => (c :: seg) :: segs

/-- The pieces separated by single slashes. -/
def joinSlash : List Bytes → Bytes
  | [] => []
  | [seg] => seg
  | seg :: next :: segs => seg ++ slash :: joinSlash (next :: segs)

theorem splitSlash_ne_nil (p : Bytes) : splitSlash p ≠ [] := by
  cases p with
  | nil => simp [splitSlash]
  | cons c cs =>
      simp only [splitSlash]
      split
      · simp
      · split <;> simp

theorem joinSlash_cons {seg : Bytes} {segs : List Bytes} (h : segs ≠ []) :
    joinSlash (seg :: segs) = seg ++ slash :: joinSlash segs := by
  cases segs with
  | nil => exact absurd rfl h
  | cons next rest => rfl

theorem joinSlash_splitSlash (p : Bytes) : joinSlash (splitSlash p) = p := by
  induction p with
  | nil => rfl
  | cons c cs ih =>
      simp only [splitSlash]
      split
      · rename_i hc
        rw [joinSlash_cons (splitSlash_ne_nil cs), ih, hc]
        rfl
      · cases hsplit : splitSlash cs with
        | nil => exact absurd hsplit (splitSlash_ne_nil cs)
        | cons seg segs =>
            rw [hsplit] at ih
            cases segs with
            | nil => simpa [joinSlash] using ih
            | cons next rest =>
                rw [joinSlash_cons (by simp)] at ih
                simp only [joinSlash, List.cons_append, ih]

theorem splitSlash_of_not_mem {seg : Bytes} (h : slash ∉ seg) : splitSlash seg = [seg] := by
  induction seg with
  | nil => rfl
  | cons c cs ih =>
      have hc : ¬ c = slash := fun heq => h (by simp [heq])
      have hcs : slash ∉ cs := fun hmem => h (List.mem_cons_of_mem _ hmem)
      simp [splitSlash, hc, ih hcs]

theorem splitSlash_append_slash {seg : Bytes} (h : slash ∉ seg) (rest : Bytes) :
    splitSlash (seg ++ slash :: rest) = seg :: splitSlash rest := by
  induction seg with
  | nil => simp [splitSlash]
  | cons c cs ih =>
      have hc : ¬ c = slash := fun heq => h (by simp [heq])
      have hcs : slash ∉ cs := fun hmem => h (List.mem_cons_of_mem _ hmem)
      simp [splitSlash, hc, ih hcs]

/-- Splitting at a separator in the middle. -/
theorem splitSlash_append (p q : Bytes) :
    splitSlash (p ++ slash :: q) = splitSlash p ++ splitSlash q := by
  induction p with
  | nil => simp [splitSlash]
  | cons c cs ih =>
      by_cases hc : c = slash
      · simp [splitSlash, hc, ih]
      · cases hsplit : splitSlash cs with
        | nil => exact absurd hsplit (splitSlash_ne_nil cs)
        | cons seg segs =>
            rw [hsplit] at ih
            simp [splitSlash, hc, ih, hsplit]

/-- Joining slash-free segments and splitting again gives them back. -/
theorem splitSlash_joinSlash {segs : List Bytes} (hne : segs ≠ [])
    (hfree : ∀ seg ∈ segs, slash ∉ seg) : splitSlash (joinSlash segs) = segs := by
  induction segs with
  | nil => exact absurd rfl hne
  | cons seg segs ih =>
      have hseg : slash ∉ seg := hfree seg (by simp)
      cases segs with
      | nil => exact splitSlash_of_not_mem hseg
      | cons next rest =>
          have hrest := ih (by simp) (fun s hs => hfree s (List.mem_cons_of_mem _ hs))
          rw [joinSlash_cons (by simp), splitSlash_append_slash hseg, hrest]

theorem slash_not_mem_of_mem_splitSlash {p seg : Bytes} (h : seg ∈ splitSlash p) :
    slash ∉ seg := by
  induction p generalizing seg with
  | nil =>
      simp only [splitSlash, List.mem_singleton] at h
      simp [h]
  | cons c cs ih =>
      simp only [splitSlash] at h
      split at h
      · rcases List.mem_cons.mp h with rfl | hmem
        · simp
        · exact ih hmem
      · rename_i hc
        cases hsplit : splitSlash cs with
        | nil => exact absurd hsplit (splitSlash_ne_nil cs)
        | cons first rest =>
            rw [hsplit] at h ih
            rcases List.mem_cons.mp h with rfl | hmem
            · intro hmem
              rcases List.mem_cons.mp hmem with heq | hin
              · exact hc heq.symm
              · exact ih (by simp) hin
            · exact ih (by simp [hmem])

end HermesNode
