/-
Module: HermesNode.Fs.Requests
Purpose: Asynchronous requests of the `fs` binding as a machine. JavaScript calls the binding, in
  callback mode and in promise mode, makes synchronous calls and changes its arrays; libuv does the
  work of a request at some time and the loop completes it at some later time, in any order. A run
  settles every request once, with the answer the synchronous variant would have given, exactly when
  libuv accepts every request, no recursive `mkdir` has a callback, no error is about an empty path
  and no view is taken out of an array that libuv works on.
Trusted boundary: human-reviewed spec (transcribed from `lib/bindings/node_file.cpp`); the work of
  libuv, its answers to starting a request and the order of everything are parameters; a callback that
  throws returns
Main exports: Request, State, settled_throughout_iff
-/
import HermesNode.Fs.Functions
import HermesNode.Lib.Machine

namespace HermesNode.Fs.Requests

/-! ### Requests -/

/-- What a request references besides its callback: a view, or an array of views. -/
inductive Ref where
  | view (view : Nat)
  | array (array : Nat)
deriving Repr, DecidableEq

/-- `wrap->bufferRef`. -/
def Op.bufferRef : Op → Option Ref
  | .read _ buffer _ _ _ | .writeBuffer _ buffer _ _ _ => some (.view buffer)
  | .readBuffers _ buffers _ | .writeBuffers _ buffers _ => some (.array buffers)
  | _ => none

def Data.views : Data → List Nat
  | .part v _ _ | .view v => [v]
  | .own _ => []

def Arg.views : Arg → List Nat
  | .bufs data => data.flatMap Data.views
  | _ => []

/-- The views whose memory libuv is given. -/
def UvFs.views (c : UvFs) : List Nat := c.args.flatMap Arg.views

/-- What starting a request returns. Nothing can be read or written without a buffer; otherwise libuv
has an answer, 0 or an error. -/
def UvFs.start (c : UvFs) (answer : Int) : Int :=
  if .bufs [] ∈ c.args then UV_EINVAL else answer

/-- A call of `oncomplete`, or a promise being settled. -/
structure Ending (σ : Type) where
  report : Report
  /-- The call that made the request had not returned. -/
  inside : Bool
  /-- The system the work was done on. -/
  before : σ

inductive Stage (σ : Type) where
  /-- libuv has returned an error. -/
  | rejected
  | submitted
  | worked (before : σ) (req : UvReq)
  /-- The completion routine has run. -/
  | completed

/-- An asynchronous request, with what the arrays held when it was made. -/
structure Request (σ : Type) where
  op : Op
  given : Nat → List Nat
  isPromise : Bool
  bufferRef : Option Ref
  stage : Stage σ
  endings : List (Ending σ)

section

variable {σ : Type}

def Request.call (r : Request σ) : FsCall := r.op.call r.given

/-- The request is in libuv. -/
def Request.outstanding (r : Request σ) : Bool :=
  match r.stage with
  | .submitted | .worked _ _ => true
  | .rejected | .completed => false

/-- A view that the reference keeps. -/
def Ref.Keeps (arrays : Nat → List Nat) (ref : Option Ref) (v : Nat) : Prop :=
  match ref with
  | some (.view kept) => v = kept
  | some (.array kept) => v ∈ arrays kept
  | none => False

/-! ### The machine -/

structure State (σ : Type) where
  sys : σ
  shared : Shared
  arrays : Nat → List Nat
  requests : Nat → Option (Request σ)
  /-- The calls that have called `oncomplete` and not returned. -/
  stack : List Nat

def State.set (s : State σ) (id : Nat) (r : Request σ) : State σ :=
  { s with requests := Function.update s.requests id (some r) }

inductive Event (σ : Type) where
  /-- An asynchronous call, and the answer of libuv to its request. -/
  | call (id : Nat) (op : Op) (isPromise : Bool) (answer : Int)
  /-- The innermost call that has called `oncomplete` returns. -/
  | callReturns
  | work (id : Nat)
  | complete (id : Nat)
  | sync (op : Op)
  /-- The system is changed by others. -/
  | outside (sys : σ)
  | setArray (array : Nat) (views : List Nat)

def State.init (sys : σ) (shared : Shared) (arrays : Nat → List Nat) : State σ :=
  ⟨sys, shared, arrays, fun _ => none, []⟩

variable (uv : Libuv σ)

/-- A recursive `mkdir` with a request: the completion routine runs before the call returns. -/
def State.callInline (s : State σ) (id : Nat) (op : Op) (path : Bytes) (mode : Int)
    (isPromise : Bool) : State σ :=
  let (sys, shared, report) := mkdirAsync uv path mode isPromise s.sys s.shared
  { s.set id ⟨op, s.arrays, isPromise, none, .completed, [⟨report, true, s.sys⟩]⟩ with
    sys := sys
    shared := shared
    stack := if isPromise then s.stack else id :: s.stack }

/-- Every other call: what starting the request returns is not looked at. -/
def State.callStart (s : State σ) (id : Nat) (op : Op) (isPromise : Bool) (answer : Int) : State σ :=
  s.set id ⟨op, s.arrays, isPromise, op.bufferRef,
    if (op.call s.arrays).uv.start answer = 0 then .submitted else .rejected, []⟩

def State.doWork (s : State σ) (id : Nat) (r : Request σ) : State σ :=
  let (sys, req) := uv.work r.call.uv s.sys
  { s.set id { r with stage := .worked s.sys req } with sys := sys }

/-- `fsAfterAsync` gives the references back. -/
def State.doComplete (s : State σ) (id : Nat) (r : Request σ) (before : σ) (req : UvReq) : State σ :=
  let (shared, report) := fsAfterAsync uv r.call [] r.isPromise req s.shared
  { s.set id { r with
      stage := .completed
      bufferRef := none
      endings := r.endings ++ [⟨report, s.stack.contains id, before⟩] } with
    shared := shared }

def step (s : State σ) : Event σ → Option (State σ)
  | .call id op isPromise answer =>
      match s.requests id with
      | some _ => none
      | none =>
          match op.inline with
          | some (path, mode) => some (s.callInline uv id op path mode isPromise)
          | none => some (s.callStart id op isPromise answer)
  | .callReturns =>
      match s.stack with
      | [] => none
      | _ :: stack => some { s with stack := stack }
  | .work id =>
      match s.requests id with
      | some r =>
          match r.stage with
          | .submitted => some (s.doWork uv id r)
          | _ => none
      | none => none
  | .complete id =>
      match s.requests id with
      | some r =>
          match r.stage with
          | .worked before req =>
              -- the loop runs when no call does
              if s.stack.isEmpty then some (s.doComplete uv id r before req) else none
          | _ => none
      | none => none
  | .sync op =>
      let (sys, shared, _) := op.sync uv s.arrays s.sys s.shared
      some { s with sys := sys, shared := shared }
  | .outside sys => some { s with sys := sys }
  | .setArray array views =>
      some { s with arrays := Function.update s.arrays array views }

/-! ### What is promised -/

/-- The report of an ending is that of the synchronous variant, whatever the shared arrays hold. -/
def Told (r : Request σ) (e : Ending σ) : Prop :=
  ∀ shared, e.report = (r.op.sync uv r.given e.before shared).2.2

structure Settled (s : State σ) : Prop where
  /-- A call that has returned is in libuv, or has completed once. -/
  once : ∀ id r, s.requests id = some r → id ∉ s.stack →
    (r.outstanding = true ∧ r.endings = []) ∨ (r.outstanding = false ∧ r.endings.length = 1)
  /-- `oncomplete` is not called before the call returns. -/
  after : ∀ id r, s.requests id = some r → ∀ e ∈ r.endings, e.inside = true → r.isPromise = true
  told : ∀ id r, s.requests id = some r → ∀ e ∈ r.endings, Told uv r e
  /-- Memory that libuv works on is kept. -/
  kept : ∀ id r, s.requests id = some r → r.outstanding = true → ∀ v ∈ r.call.uv.views,
    Ref.Keeps s.arrays r.bufferRef v

/-! ### When it is kept -/

def Careful (s : State σ) : Event σ → Prop
  | .call _ op isPromise answer =>
      match op.inline with
      | some (path, _) => isPromise = true ∧ (path ≠ [] ∨ IsDirectory uv path s.sys)
      | none => (op.call s.arrays).uv.start answer = 0
  | .complete id => ∀ r before req, s.requests id = some r → r.stage = .worked before req →
      0 ≤ toInt32 req.result ∨ r.call.Named
  | .setArray array views => ∀ id r, s.requests id = some r → r.outstanding = true →
      r.bufferRef = some (.array array) → ∀ v ∈ r.call.uv.views, v ∈ views
  | .callReturns | .work _ | .sync _ | .outside _ => True

/-- A request in libuv that nothing has gone wrong with. -/
structure Waiting (arrays : Nat → List Nat) (r : Request σ) : Prop where
  inline : r.op.inline = none
  endings : r.endings = []
  kept : ∀ v ∈ r.call.uv.views, Ref.Keeps arrays r.bufferRef v

/-- A request that has been completed as promised. -/
def Completed (r : Request σ) : Prop :=
  ∃ e, r.endings = [e] ∧ Told uv r e ∧ (e.inside = true → r.isPromise = true)

def RequestOk (arrays : Nat → List Nat) (r : Request σ) : Prop :=
  match r.stage with
  | .rejected => False
  | .submitted => Waiting arrays r
  | .worked before req => Waiting arrays r ∧ req = (uv.work r.call.uv before).2
  | .completed => Completed uv r

structure Inv (s : State σ) : Prop where
  stack : s.stack = []
  requests : ∀ id r, s.requests id = some r → RequestOk uv s.arrays r

/-- What each event asks for, and what it leads to. -/
def Taken (s : State σ) (e : Event σ) (t : State σ) : Prop :=
  match e with
  | .call id op isPromise answer => s.requests id = none ∧
      match op.inline with
      | some (path, mode) => t = s.callInline uv id op path mode isPromise
      | none => t = s.callStart id op isPromise answer
  | .callReturns => ∃ id stack, s.stack = id :: stack ∧ t = { s with stack := stack }
  | .work id => ∃ r, s.requests id = some r ∧ r.stage = .submitted ∧ t = s.doWork uv id r
  | .complete id => ∃ r before req, s.requests id = some r ∧ r.stage = .worked before req ∧
      s.stack = [] ∧ t = s.doComplete uv id r before req
  | .sync op => t = { s with
      sys := (op.sync uv s.arrays s.sys s.shared).1
      shared := (op.sync uv s.arrays s.sys s.shared).2.1 }
  | .outside sys => t = { s with sys := sys }
  | .setArray array views => t = { s with arrays := Function.update s.arrays array views }

variable {uv} {s t : State σ} {e : Event σ}

theorem step_cases (h : step uv s e = some t) : Taken uv s e t := by
  cases e with
  | call id op isPromise answer =>
      simp only [step] at h
      split at h
      · cases h
      · rename_i hid
        refine ⟨hid, ?_⟩
        split at h
        · rename_i hinline
          cases h
          rfl
        · rename_i hinline
          cases h
          rfl
  | callReturns =>
      simp only [step] at h
      split at h
      · cases h
      · rename_i id stack hstack
        cases h
        exact ⟨id, stack, hstack, rfl⟩
  | work id =>
      simp only [step] at h
      split at h
      · rename_i r hr
        split at h
        · rename_i hstage
          cases h
          exact ⟨r, hr, hstage, rfl⟩
        · cases h
      · cases h
  | complete id =>
      simp only [step] at h
      split at h
      · rename_i r hr
        split at h
        · rename_i before req hstage
          split at h
          · rename_i hstack
            cases h
            exact ⟨r, before, req, hr, hstage, List.isEmpty_iff.mp hstack, rfl⟩
          · cases h
        · cases h
      · cases h
  | sync op | outside sys | setArray array views =>
      cases h
      rfl

/-! ### Requests that go well -/

/-- What libuv is given is kept by the reference that is taken with it. -/
theorem keeps_of_call (arrays : Nat → List Nat) (op : Op) :
    ∀ v ∈ (op.call arrays).uv.views, Ref.Keeps arrays op.bufferRef v := by
  cases op with
  | read fd buffer offset length position | writeBuffer fd buffer offset length position =>
      intro v hv
      exact List.mem_singleton.mp hv
  | readBuffers fd buffers position | writeBuffers fd buffers position =>
      intro v hv
      simp only [Op.call, fsReadBuffers, fsWriteBuffers, onFd, UvFs.views, List.flatMap_cons,
        List.flatMap_nil, Arg.views, List.flatMap_map, List.nil_append, List.append_nil] at hv
      obtain ⟨w, hw, hvw⟩ := List.mem_flatMap.mp hv
      rw [List.mem_singleton.mp hvw]
      exact hw
  | _ =>
      intro v hv
      exact (List.not_mem_nil hv).elim

theorem Waiting.setArray {arrays : Nat → List Nat} {r : Request σ} (h : Waiting arrays r)
    {array : Nat} {views : List Nat}
    (hviews : r.bufferRef = some (.array array) → ∀ v ∈ r.call.uv.views, v ∈ views) :
    Waiting (Function.update arrays array views) r := by
  refine ⟨h.inline, h.endings, ?_⟩
  intro v hv
  have hkept := h.kept v hv
  unfold Ref.Keeps at hkept ⊢
  cases href : r.bufferRef with
  | none =>
      rw [href] at hkept
      exact hkept
  | some ref =>
      rw [href] at hkept
      cases ref with
      | view view => exact hkept
      | array other =>
          by_cases hother : other = array
          · subst hother
            simp only [Function.update_self]
            exact hviews href v hv
          · simp only [Function.update_of_ne hother]
            exact hkept

/-- A request done inline is told what the synchronous variant would have been told. -/
theorem told_inline {op : Op} {path : Bytes} {mode : Int} (hinline : op.inline = some (path, mode))
    (r : Request σ) (hop : r.op = op) (sys : σ) (shared : Shared) (inside : Bool) :
    Told uv r ⟨(mkdirAsync uv path mode r.isPromise sys shared).2.2, inside, sys⟩ ↔
      path ≠ [] ∨ IsDirectory uv path sys := by
  have hsync : ∀ shared', (r.op.sync uv r.given sys shared').2.2 =
      (mkdirSync uv path mode sys shared').2.2 := by
    intro shared'
    rw [Op.sync, hop, hinline]
  have hiff : (path ≠ [] ∨ (mkdirRecursive uv path mode sys).2.result = 0) ↔
      path ≠ [] ∨ IsDirectory uv path sys := by
    by_cases hpath : path = []
    · rw [hpath, mkdirRecursive_nil]
    · exact iff_of_true (Or.inl hpath) (Or.inl hpath)
  unfold Told
  simp only [hsync, mkdirAsync_eq_iff, hiff]
  exact forall_const Shared

/-- A request that went to libuv is. -/
theorem told_complete {r : Request σ} (hinline : r.op.inline = none) (before : σ) (shared : Shared)
    (inside : Bool) :
    Told uv r ⟨(fsAfterAsync uv r.call [] r.isPromise (uv.work r.call.uv before).2 shared).2, inside,
        before⟩ ↔
      0 ≤ toInt32 (uv.work r.call.uv before).2.result ∨ r.call.Named := by
  have hsync : ∀ shared', (r.op.sync uv r.given before shared').2.2 =
      (r.call.syncEnd uv (uv.work r.call.uv before).2 shared').2 := by
    intro shared'
    rw [Op.sync, hinline]
    rfl
  have hcall : r.call.Consistent := r.op.consistent r.given
  unfold Told
  simp only [hsync, fsAfterAsync_eq_iff uv hcall]
  exact forall_const Shared

/-! ### Runs -/

theorem Inv.set (h : Inv uv s) {id : Nat} {r : Request σ} (hr : RequestOk uv s.arrays r) :
    Inv uv (s.set id r) := by
  refine ⟨h.stack, ?_⟩
  intro other r' hr'
  simp only [State.set, Function.update_apply] at hr'
  split at hr'
  · cases hr'
    exact hr
  · exact h.requests other r' hr'

/-- The system and the shared arrays are no part of it. -/
theorem Inv.congr (h : Inv uv s) (hstack : t.stack = s.stack) (hrequests : t.requests = s.requests)
    (harrays : t.arrays = s.arrays) : Inv uv t := by
  refine ⟨hstack.trans h.stack, ?_⟩
  rw [hrequests, harrays]
  exact h.requests

theorem Inv.init (sys : σ) (shared : Shared) (arrays : Nat → List Nat) :
    Inv uv (State.init sys shared arrays) :=
  ⟨rfl, fun _ _ hr => by cases hr⟩

theorem Inv.step (h : Inv uv s) (hcareful : Careful uv s e) (ht : step uv s e = some t) :
    Inv uv t := by
  have htaken := step_cases ht
  cases e with
  | call id op isPromise answer =>
      obtain ⟨hid, hcall⟩ := htaken
      simp only [Careful] at hcareful
      cases hinline : op.inline with
      | some what =>
          obtain ⟨path, mode⟩ := what
          rw [hinline] at hcall hcareful
          obtain ⟨hpromise, hpath⟩ := hcareful
          have hok : RequestOk uv s.arrays ⟨op, s.arrays, isPromise, none, .completed,
              [⟨(mkdirAsync uv path mode isPromise s.sys s.shared).2.2, true, s.sys⟩]⟩ :=
            ⟨_, rfl, (told_inline hinline _ rfl _ _ _).mpr hpath, fun _ => hpromise⟩
          have hstack : t.stack = s.stack := by
            rw [hcall, State.callInline, hpromise]
            rfl
          rw [hcall] at hstack ⊢
          exact (@Inv.set _ _ _ h id _ hok).congr hstack rfl rfl
      | none =>
          rw [hinline] at hcall hcareful
          rw [hcall, State.callStart, if_pos hcareful]
          exact h.set ⟨hinline, rfl, keeps_of_call s.arrays op⟩
  | callReturns =>
      obtain ⟨id, stack, hstack, _⟩ := htaken
      rw [h.stack] at hstack
      cases hstack
  | work id =>
      obtain ⟨r, hr, hstage, rfl⟩ := htaken
      have hok := h.requests id r hr
      unfold RequestOk at hok
      rw [hstage] at hok
      have hnext : RequestOk uv s.arrays
          { r with stage := .worked s.sys (uv.work r.call.uv s.sys).2 } :=
        ⟨⟨hok.inline, hok.endings, hok.kept⟩, rfl⟩
      exact (@Inv.set _ _ _ h id _ hnext).congr rfl rfl rfl
  | complete id =>
      obtain ⟨r, before, req, hr, hstage, hstack, rfl⟩ := htaken
      have hok := h.requests id r hr
      unfold RequestOk at hok
      rw [hstage] at hok
      obtain ⟨hwaiting, hreq⟩ := hok
      have hanswer := hcareful r before req hr hstage
      rw [hreq] at hanswer
      have hending : RequestOk uv s.arrays { r with
          stage := .completed
          bufferRef := none
          endings := r.endings ++
            [⟨(fsAfterAsync uv r.call [] r.isPromise req s.shared).2, s.stack.contains id,
              before⟩] } := by
        refine ⟨_, by rw [hwaiting.endings]; rfl, ?_, ?_⟩
        · rw [hreq]
          exact (told_complete hwaiting.inline before s.shared _).mpr hanswer
        · rw [hstack]
          exact fun hinside => by cases hinside
      exact (@Inv.set _ _ _ h id _ hending).congr rfl rfl rfl
  | sync op | outside sys =>
      subst htaken
      exact h.congr rfl rfl rfl
  | setArray array views =>
      subst htaken
      refine ⟨h.stack, ?_⟩
      intro id r hr
      have hok := h.requests id r hr
      have hviews := hcareful id r hr
      unfold RequestOk at hok ⊢
      unfold Request.outstanding at hviews
      cases hstage : r.stage with
      | rejected =>
          rw [hstage] at hok
          exact hok
      | submitted =>
          rw [hstage] at hok hviews
          exact hok.setArray (hviews rfl)
      | worked before req =>
          rw [hstage] at hok hviews
          exact ⟨hok.1.setArray (hviews rfl), hok.2⟩
      | completed =>
          rw [hstage] at hok
          exact hok

theorem Inv.completed (h : Inv uv s) {id : Nat} {r : Request σ} (hr : s.requests id = some r)
    {ending : Ending σ} (hending : ending ∈ r.endings) : Completed uv r := by
  have hok := h.requests id r hr
  unfold RequestOk at hok
  cases hstage : r.stage with
  | rejected =>
      rw [hstage] at hok
      exact hok.elim
  | submitted =>
      rw [hstage] at hok
      rw [hok.endings] at hending
      cases hending
  | worked before req =>
      rw [hstage] at hok
      rw [hok.1.endings] at hending
      cases hending
  | completed =>
      rw [hstage] at hok
      exact hok

theorem Inv.settled (h : Inv uv s) : Settled uv s where
  once id r hr _ := by
    have hok := h.requests id r hr
    unfold RequestOk at hok
    unfold Request.outstanding
    cases hstage : r.stage with
    | rejected =>
        rw [hstage] at hok
        exact hok.elim
    | submitted =>
        rw [hstage] at hok
        exact Or.inl ⟨rfl, hok.endings⟩
    | worked before req =>
        rw [hstage] at hok
        exact Or.inl ⟨rfl, hok.1.endings⟩
    | completed =>
        rw [hstage] at hok
        obtain ⟨ending, hone, _⟩ := hok
        exact Or.inr ⟨rfl, by rw [hone]; rfl⟩
  after id r hr ending hending := by
    obtain ⟨only, hone, _, hinside⟩ := h.completed hr hending
    rw [hone, List.mem_singleton] at hending
    rw [hending]
    exact hinside
  told id r hr ending hending := by
    obtain ⟨only, hone, htold, _⟩ := h.completed hr hending
    rw [hone, List.mem_singleton] at hending
    rw [hending]
    exact htold
  kept id r hr hout := by
    have hok := h.requests id r hr
    unfold RequestOk at hok
    unfold Request.outstanding at hout
    cases hstage : r.stage with
    | rejected | completed =>
        rw [hstage] at hout
        cases hout
    | submitted =>
        rw [hstage] at hok
        exact hok.kept
    | worked before req =>
        rw [hstage] at hok
        exact hok.1.kept

/-- A step that is not careful breaks a promise at once. -/
theorem careful_of_settled (h : Inv uv s) (ht : step uv s e = some t) (hsettled : Settled uv t) :
    Careful uv s e := by
  have htaken := step_cases ht
  cases e with
  | call id op isPromise answer =>
      obtain ⟨hid, hcall⟩ := htaken
      simp only [Careful]
      cases hinline : op.inline with
      | some what =>
          obtain ⟨path, mode⟩ := what
          rw [hinline] at hcall
          have hr : t.requests id = some ⟨op, s.arrays, isPromise, none, .completed,
              [⟨(mkdirAsync uv path mode isPromise s.sys s.shared).2.2, true, s.sys⟩]⟩ := by
            rw [hcall]
            exact Function.update_self _ _ _
          refine ⟨hsettled.after id _ hr _ (List.mem_singleton_self _) rfl, ?_⟩
          have htold := hsettled.told id _ hr _ (List.mem_singleton_self _)
          exact (told_inline hinline _ rfl _ _ _).mp htold
      | none =>
          rw [hinline] at hcall
          by_contra hstart
          have hr : t.requests id = some ⟨op, s.arrays, isPromise, op.bufferRef, .rejected, []⟩ := by
            rw [hcall, State.callStart, if_neg hstart]
            exact Function.update_self _ _ _
          have hstack : id ∉ t.stack := by
            rw [hcall]
            change id ∉ s.stack
            rw [h.stack]
            exact List.not_mem_nil
          rcases hsettled.once id _ hr hstack with ⟨hout, _⟩ | ⟨_, hlength⟩
          · cases hout
          · cases hlength
  | complete id =>
      obtain ⟨r, before, req, hr, hstage, hstack, rfl⟩ := htaken
      intro r' before' req' hr' hstage'
      rw [hr, Option.some.injEq] at hr'
      subst hr'
      rw [hstage, Stage.worked.injEq] at hstage'
      obtain ⟨rfl, rfl⟩ := hstage'
      have hok := h.requests id r hr
      unfold RequestOk at hok
      rw [hstage] at hok
      obtain ⟨hwaiting, hreq⟩ := hok
      have htold := hsettled.told id _ (Function.update_self _ _ _) _
        (List.mem_append_right _ (List.mem_singleton_self _))
      rw [hreq] at htold ⊢
      exact (told_complete hwaiting.inline before s.shared _).mp htold
  | setArray array views =>
      subst htaken
      intro id r hr hout href v hv
      have hkept := hsettled.kept id r hr hout v hv
      rw [href] at hkept
      simp only [Ref.Keeps, Function.update_self] at hkept
      exact hkept
  | callReturns | work id | sync op | outside sys => trivial

end

/-- In every run, every request is all along in libuv or completed once, with the answer of the
synchronous variant, after its call and with its memory kept, exactly when every step is careful. -/
theorem settled_throughout_iff {σ : Type} (uv : Libuv σ) (sys : σ) (shared : Shared)
    (arrays : Nat → List Nat) (events : List (Event σ)) (last : State σ)
    (run : runEvents (step uv) (State.init sys shared arrays) events = some last) :
    Throughout (step uv) (Settled uv) (State.init sys shared arrays) events ↔
      AllowedAlong (step uv) (Careful uv) (State.init sys shared arrays) events :=
  throughout_iff_allowed (fun _ h => Inv.settled h) (fun _ _ _ h hcareful ht => h.step hcareful ht)
    (fun _ _ _ h ht hsettled => careful_of_settled h ht hsettled) (Inv.init sys shared arrays) run

/-- A system that counts what has been done on it, and where nothing can be accessed. A file is as long
as the count. -/
def counter : Libuv Nat where
  work call n := (n + 1,
    if call.type = .access then { result := -2 }
    else { result := 0, statbuf := { (default : UvStat) with size := n } })
  errName _ := [69]
  strerror _ := [69]
  mkdir_nonpos _ _ := show toInt32 0 ≤ 0 by decide

/-- The first array has two views. -/
def twoViews (array : Nat) : List Nat := if array = 0 then [1, 2] else []

abbrev counting : State Nat := State.init 0 default twoViews

/-- A batch and two `stat` calls at once, whose work is done in another order than they are completed
in, while a view is added to the array of the batch. -/
def overlapping : List (Event Nat) :=
  [.call 0 (.writeBuffers 4 0 (-1)) true 0, .call 1 (.stat [97] false) false 0,
    .call 2 (.stat [98] false) false 0, .setArray 0 [1, 2, 3], .work 2, .work 0, .work 1,
    .complete 1, .complete 0, .complete 2]

theorem overlapping_settled :
    (∃ last, runEvents (step counter) counting overlapping = some last ∧
      (last.requests 1).map (·.endings.map (·.report)) =
        some [.ok (.array (fillStatValues false { (default : UvStat) with size := 2 }))] ∧
      (last.requests 2).map (·.endings.map (·.report)) =
        some [.ok (.array (fillStatValues false { (default : UvStat) with size := 0 }))]) ∧
    Throughout (step counter) (Settled counter) counting overlapping := by
  have hcomplete : ∀ (s : State Nat) (id : Nat), (∀ r before req, s.requests id = some r →
      r.stage = .worked before req → 0 ≤ toInt32 req.result) → Careful counter s (.complete id) :=
    fun s id h r before req hr hstage => Or.inl (h r before req hr hstage)
  refine ⟨⟨_, rfl, rfl, rfl⟩,
    (settled_throughout_iff counter 0 default twoViews overlapping _ rfl).mpr ?_⟩
  refine AllowedAlong.cons rfl (show UvFs.start _ 0 = 0 by decide) ?_
  refine AllowedAlong.cons rfl (show UvFs.start _ 0 = 0 by decide) ?_
  refine AllowedAlong.cons rfl (show UvFs.start _ 0 = 0 by decide) ?_
  refine AllowedAlong.cons rfl ?_ ?_
  · -- only the batch has the array
    intro id r hr _ href v hv
    by_cases hbatch : id = 0
    · subst hbatch
      cases hr
      have hviews : v ∈ [1, 2] := hv
      simp only [List.mem_cons] at hviews ⊢
      tauto
    · by_cases hfirst : id = 1
      · subst hfirst
        cases hr
        cases href
      · by_cases hsecond : id = 2
        · subst hsecond
          cases hr
          cases href
        · simp [State.callStart, State.set, State.init, hbatch, hfirst,
            hsecond] at hr
  refine AllowedAlong.cons rfl trivial ?_
  refine AllowedAlong.cons rfl trivial ?_
  refine AllowedAlong.cons rfl trivial ?_
  refine AllowedAlong.cons rfl (hcomplete _ _ ?_) ?_
  · rintro r before req ⟨⟩ ⟨⟩
    decide
  refine AllowedAlong.cons rfl (hcomplete _ _ ?_) ?_
  · rintro r before req ⟨⟩ ⟨⟩
    decide
  refine AllowedAlong.cons rfl (hcomplete _ _ ?_) trivial
  rintro r before req ⟨⟩ ⟨⟩
  decide

/-- Reading into no buffers is accepted by the binding and never completed; a recursive `mkdir` calls
back before it returns; an error about an empty path has no path; and the views of a batch are not
kept when its array is emptied. -/
theorem requests_unsettled :
    (∃ last, runEvents (step counter) counting [.call 0 (.readBuffers 3 1 (-1)) false 0] = some last ∧
      ¬ Settled counter last) ∧
    (∃ last, runEvents (step counter) counting [.call 0 (.mkdir [97] 511 true) false 0] = some last ∧
      ¬ Settled counter last) ∧
    (∃ last, runEvents (step counter) counting
        [.call 0 (.access [] 0) false 0, .work 0, .complete 0] = some last ∧
      ¬ Settled counter last) ∧
    ∃ last, runEvents (step counter) counting
        [.call 0 (.writeBuffers 4 0 (-1)) false 0, .setArray 0 []] = some last ∧
      ¬ Settled counter last := by
  refine ⟨⟨_, rfl, ?_⟩, ⟨_, rfl, ?_⟩, ⟨_, rfl, ?_⟩, ⟨_, rfl, ?_⟩⟩
  · intro hsettled
    rcases hsettled.once 0 _ rfl (by decide) with ⟨hout, _⟩ | ⟨_, hlength⟩
    · cases hout
    · cases hlength
  · intro hsettled
    have hpromise := hsettled.after 0 _ rfl _ (List.mem_singleton_self _) rfl
    cases hpromise
  · intro hsettled
    have htold := hsettled.told 0 _ rfl _ (List.mem_singleton_self _) default
    cases htold
  · intro hsettled
    have hkept := hsettled.kept 0 _ rfl rfl 1 (by decide)
    cases hkept

end HermesNode.Fs.Requests
