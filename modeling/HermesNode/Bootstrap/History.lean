/-
Module: HermesNode.Bootstrap.History
Purpose: What the log of a run says about the instances of a module: which records its function was
  entered with, which of them are live, what they export. A log is faithful when a function was
  entered anew only after it threw and every answer is what the live instance exported; then a
  module has one live instance at most, and two answers are one object.
Trusted boundary: none
Main exports: recordsOf, exportsIn, Faithful.live_unique, Faithful.answers_agree
-/
import HermesNode.Bootstrap.Loader

namespace HermesNode.Bootstrap

variable {log older : List LogEntry} {src : Source} {r : RecordId}

/-- The instances of a module: the records its function was entered with, newest first. -/
def recordsOf (log : List LogEntry) (src : Source) : List RecordId :=
  log.filterMap fun
    | .started source record _ => if source = src then some record else none
    | _ => none

/-- The `exports` of an instance: the object it was made with, or what was assigned last. -/
def exportsIn : List LogEntry → RecordId → Option Nat
  | [], _ => none
  | .started _ record exports :: log, r => if record = r then some exports else exportsIn log r
  | .assigned record value :: log, r => if record = r then some value else exportsIn log r
  | _ :: log, r => exportsIn log r

/-- The instance was made, and its function has not thrown. -/
def Live (log : List LogEntry) (src : Source) (r : RecordId) : Prop :=
  r ∈ recordsOf log src ∧ LogEntry.threw r ∉ log

/-- What an entry may say after these older ones: a function is entered anew, with a new module
object, only if it threw each time before; and an answer is what the live instance exports. -/
def EntryFaithful (older : List LogEntry) : LogEntry → Prop
  | .started src r _ =>
      (∀ src', r ∉ recordsOf older src') ∧ ∀ r' ∈ recordsOf older src, LogEntry.threw r' ∈ older
  | .answered src exports => ∃ r, Live older src r ∧ exportsIn older r = some exports
  | _ => True

def Faithful : List LogEntry → Prop
  | [] => True
  | entry :: older => EntryFaithful older entry ∧ Faithful older

@[simp] theorem recordsOf_nil : recordsOf [] src = [] := rfl

@[simp] theorem recordsOf_started (source : Source) (record : RecordId) (x : Nat) :
    recordsOf (.started source record x :: log) src =
      if source = src then record :: recordsOf log src else recordsOf log src := by
  unfold recordsOf
  rw [List.filterMap_cons]
  by_cases heq : source = src <;> simp [heq]

theorem recordsOf_append (newer : List LogEntry) :
    recordsOf (newer ++ older) src = recordsOf newer src ++ recordsOf older src :=
  List.filterMap_append

theorem mem_recordsOf_started {source : Source} {record : RecordId} {x : Nat} :
    r ∈ recordsOf (.started source record x :: log) src ↔
      (source = src ∧ r = record) ∨ r ∈ recordsOf log src := by
  rw [recordsOf_started]
  by_cases heq : source = src <;> simp [heq]

/-- An entry that neither makes an instance nor ends one. -/
def LogEntry.quiet : LogEntry → Bool
  | .started .. | .threw _ => false
  | _ => true

theorem recordsOf_quiet {e : LogEntry} (he : e.quiet = true) :
    recordsOf (e :: log) src = recordsOf log src := by
  cases e with
  | started | threw => cases he
  | completed | answered | failed | assigned => rfl

theorem threw_mem_quiet {e : LogEntry} (he : e.quiet = true) :
    LogEntry.threw r ∈ e :: log ↔ LogEntry.threw r ∈ log := by
  cases e with
  | started | threw => cases he
  | completed | answered | failed | assigned => simp

theorem live_quiet {e : LogEntry} (he : e.quiet = true) :
    Live (e :: log) src r ↔ Live log src r := by
  rw [Live, Live, recordsOf_quiet he, threw_mem_quiet he]

theorem Faithful.suffix {newer : List LogEntry} (hf : Faithful (newer ++ older)) :
    Faithful older := by
  induction newer with
  | nil => exact hf
  | cons entry newer ih => exact ih hf.2

theorem Faithful.entry {newer : List LogEntry} {e : LogEntry}
    (hf : Faithful (newer ++ e :: older)) : EntryFaithful older e := by
  exact hf.suffix.1

/-- A module has one live instance at most. -/
theorem Faithful.live_unique (hf : Faithful log) {r₁ r₂ : RecordId} (h₁ : Live log src r₁)
    (h₂ : Live log src r₂) : r₁ = r₂ := by
  induction log with
  | nil => cases h₁.1
  | cons entry older ih =>
      have hold : ∀ r, r ∈ recordsOf older src → Live (entry :: older) src r →
          Live older src r := by
        intro r hmem hlive
        exact ⟨hmem, fun hthrew => hlive.2 (List.mem_cons_of_mem _ hthrew)⟩
      cases entry with
      | started source record x =>
          by_cases heq : source = src
          · subst heq
            have hmem : ∀ r, Live (.started source record x :: older) source r → r = record := by
              intro r hlive
              have hr := hlive.1
              rw [recordsOf_started, if_pos rfl, List.mem_cons] at hr
              rcases hr with rfl | hr
              · rfl
              · exact absurd (List.mem_cons_of_mem _ (hf.1.2 r hr)) hlive.2
            rw [hmem r₁ h₁, hmem r₂ h₂]
          · have hmem : ∀ r, Live (.started source record x :: older) src r → Live older src r := by
              intro r hlive
              refine hold r ?_ hlive
              simpa [heq] using hlive.1
            exact ih hf.2 (hmem r₁ h₁) (hmem r₂ h₂)
      | completed | threw | answered | failed | assigned =>
          exact ih hf.2 (hold r₁ h₁.1 h₁) (hold r₂ h₂.1 h₂)

theorem Faithful.not_made_again {newer : List LogEntry} (hf : Faithful (newer ++ older))
    (hr : r ∈ recordsOf older src) (src' : Source) : r ∉ recordsOf newer src' := by
  induction newer with
  | nil => simp
  | cons entry newer ih =>
      have hrest := ih hf.2
      cases entry with
      | started source record x =>
          rw [recordsOf_started]
          split
          · rw [List.mem_cons, not_or]
            refine ⟨?_, hrest⟩
            rintro rfl
            have hagain : r ∈ recordsOf (newer ++ older) src := by
              rw [recordsOf_append]
              exact List.mem_append_right _ hr
            exact hf.1.1 src hagain
          · exact hrest
      | completed | threw | answered | failed | assigned => exact hrest

theorem exportsIn_append {newer : List LogEntry} (hmade : ∀ src, r ∉ recordsOf newer src)
    (hassigned : ∀ v, LogEntry.assigned r v ∉ newer) :
    exportsIn (newer ++ older) r = exportsIn older r := by
  induction newer with
  | nil => rfl
  | cons entry newer ih =>
      have hassigned' : ∀ v, LogEntry.assigned r v ∉ newer := fun v hmem =>
        hassigned v (List.mem_cons_of_mem _ hmem)
      cases entry with
      | started source record x =>
          have hne : record ≠ r := by
            rintro rfl
            exact hmade source (by simp)
          have hmade' : ∀ src, r ∉ recordsOf newer src := by
            intro src hmem
            apply hmade src
            rw [recordsOf_started]
            split
            · exact List.mem_cons_of_mem _ hmem
            · exact hmem
          rw [List.cons_append, exportsIn, if_neg hne]
          exact ih hmade' hassigned'
      | assigned record value =>
          have hne : record ≠ r := by
            rintro rfl
            exact hassigned value List.mem_cons_self
          rw [List.cons_append, exportsIn, if_neg hne]
          exact ih hmade hassigned'
      | completed | threw | answered | failed => exact ih hmade hassigned'

/-- Two answers for one module between which its function did not throw and its `exports` was not
assigned are one object. -/
theorem Faithful.answers_agree {between : List LogEntry} {x y : Nat}
    (hf : Faithful (.answered src x :: (between ++ .answered src y :: older)))
    (hquiet : ∀ r ∈ recordsOf older src, LogEntry.threw r ∉ between ∧
      ∀ v, LogEntry.assigned r v ∉ between) : x = y := by
  obtain ⟨r, hlive, hx⟩ := hf.1
  obtain ⟨r', hlive', hy⟩ := Faithful.entry hf.2
  have hmem : r' ∈ recordsOf (.answered src y :: older) src := hlive'.1
  have hstill : Live (between ++ .answered src y :: older) src r' := by
    constructor
    · rw [recordsOf_append]
      exact List.mem_append_right _ hmem
    · simp [(hquiet r' hlive'.1).1, hlive'.2]
  obtain rfl := Faithful.live_unique hf.2 hlive hstill
  have hsame : exportsIn (between ++ .answered src y :: older) r =
      exportsIn (.answered src y :: older) r :=
    exportsIn_append (hf.2.not_made_again hmem) (hquiet r hlive'.1).2
  have hx' : exportsIn older r = some x := by
    rwa [hsame] at hx
  rw [hy] at hx'
  exact (Option.some.inj hx').symm

end HermesNode.Bootstrap
