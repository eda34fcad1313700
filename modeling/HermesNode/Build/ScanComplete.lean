/-
Module: HermesNode.Build.ScanComplete
Purpose: The scanner finds everything. Every node of a tree occurs in one place, which says whether a
  reference to `require` there is explained by its parent; from the occurrences alone it is clear
  which literals are required and which uses cannot be followed. The visitor, which has no parent to
  ask, records exactly these: what it keeps in its set when it gets to a node is right for that node,
  because the nodes of a tree are different and only a parent's overload speaks for a child.
Trusted boundary: none
Main exports: Use, occurrences, scanTree_complete
-/
import HermesNode.Build.RequireScanner
import Mathlib.Data.List.Pairwise

namespace HermesNode.Build.Scanner

open WorkList

/-! ### Places in a tree -/

/-- The place a node has in its parent. -/
inductive Use where
  | callee
  | memberObject
  | tested
  | compared
  | elsewhere
deriving Repr, DecidableEq

/-- A reference in such a place hands the value to nobody. -/
def Use.explained : Use → Bool
  | .elsewhere => false
  | _ => true

def everywhere (nodes : List Node) : List (Use × Node) := nodes.map (Use.elsewhere, ·)

/-- The children of a node with their places, in the order they are visited. -/
def childUses : Node → List (Use × Node)
  | .identifier _ _ _ annotation => everywhere annotation
  | .stringLiteral .. => []
  | .templateLiteral _ _ _ expressions => everywhere expressions
  | .callExpression _ callee types arguments | .optionalCallExpression _ callee types arguments =>
      (.callee, callee) :: everywhere types ++ everywhere arguments
  | .memberExpression _ object property _ | .optionalMemberExpression _ object property _ =>
      [(.memberObject, object), (.elsewhere, property)]
  | .unaryExpression _ operator argument =>
      [(if testsOperand operator then .tested else .elsewhere, argument)]
  | .binaryExpression _ operator left right =>
      let use := if isEquality operator then Use.compared else .elsewhere
      [(use, left), (use, right)]
  | .program _ body => everywhere body
  | .expressionStatement _ expression => everywhere [expression]
  | .functionExpression _ name params rest => everywhere name ++ everywhere params ++ everywhere rest
  | .other _ children => everywhere children

mutual

/-- All nodes of a tree with their places, each before its children. -/
def occurrences (use : Use) (node : Node) : List (Use × Node) :=
  match node with
  | .identifier id name binding annotation =>
      (use, .identifier id name binding annotation) :: occurrencesAll annotation
  | .stringLiteral id value => [(use, .stringLiteral id value)]
  | .templateLiteral id quasi quasis expressions =>
      (use, .templateLiteral id quasi quasis expressions) :: occurrencesAll expressions
  | .callExpression id callee types arguments =>
      (use, .callExpression id callee types arguments) ::
        (occurrences .callee callee ++ (occurrencesAll types ++ occurrencesAll arguments))
  | .optionalCallExpression id callee types arguments =>
      (use, .optionalCallExpression id callee types arguments) ::
        (occurrences .callee callee ++ (occurrencesAll types ++ occurrencesAll arguments))
  | .memberExpression id object property computed =>
      (use, .memberExpression id object property computed) ::
        (occurrences .memberObject object ++ occurrences .elsewhere property)
  | .optionalMemberExpression id object property computed =>
      (use, .optionalMemberExpression id object property computed) ::
        (occurrences .memberObject object ++ occurrences .elsewhere property)
  | .unaryExpression id operator argument =>
      (use, .unaryExpression id operator argument) ::
        occurrences (if testsOperand operator then .tested else .elsewhere) argument
  | .binaryExpression id operator left right =>
      (use, .binaryExpression id operator left right) ::
        (occurrences (if isEquality operator then .compared else .elsewhere) left ++
          occurrences (if isEquality operator then .compared else .elsewhere) right)
  | .program id body => (use, .program id body) :: occurrencesAll body
  | .expressionStatement id expression =>
      (use, .expressionStatement id expression) :: occurrences .elsewhere expression
  | .functionExpression id name params rest =>
      (use, .functionExpression id name params rest) ::
        (occurrencesAll name ++ (occurrencesAll params ++ occurrencesAll rest))
  | .other id children => (use, .other id children) :: occurrencesAll children

def occurrencesAll : List Node → List (Use × Node)
  | [] => []
  | node :: rest => occurrences .elsewhere node ++ occurrencesAll rest

end

theorem occurrencesAll_eq (nodes : List Node) :
    occurrencesAll nodes = (everywhere nodes).flatMap fun c => occurrences c.1 c.2 := by
  induction nodes with
  | nil => rfl
  | cons node rest ih => simp [occurrencesAll, ih, everywhere]

theorem occurrences_eq (use : Use) (node : Node) :
    occurrences use node = (use, node) :: (childUses node).flatMap fun c => occurrences c.1 c.2 := by
  cases node <;>
    simp [occurrences, childUses, occurrencesAll_eq, List.flatMap_append, everywhere]

mutual

/-- What holds of a node when it holds of its children holds of every node. -/
theorem node_induct {P : Node → Prop} (h : ∀ n, (∀ c ∈ childUses n, P c.2) → P n) :
    ∀ n, P n
  | .identifier id name binding annotation =>
      h _ fun c hc => nodes_induct h annotation c (by simpa [childUses] using hc)
  | .stringLiteral id value => h _ fun c hc => by cases hc
  | .templateLiteral id quasi quasis expressions =>
      h _ fun c hc => nodes_induct h expressions c (by simpa [childUses] using hc)
  | .callExpression id callee types arguments =>
      h _ fun c hc => by
        rcases List.mem_append.mp hc with hfront | harg
        · rcases List.mem_cons.mp hfront with rfl | htype
          · exact node_induct h callee
          · exact nodes_induct h types c htype
        · exact nodes_induct h arguments c harg
  | .optionalCallExpression id callee types arguments =>
      h _ fun c hc => by
        rcases List.mem_append.mp hc with hfront | harg
        · rcases List.mem_cons.mp hfront with rfl | htype
          · exact node_induct h callee
          · exact nodes_induct h types c htype
        · exact nodes_induct h arguments c harg
  | .memberExpression id object property computed =>
      h _ fun c hc => by
        rcases List.mem_cons.mp hc with rfl | hc
        · exact node_induct h object
        · rw [List.mem_singleton.mp hc]
          exact node_induct h property
  | .optionalMemberExpression id object property computed =>
      h _ fun c hc => by
        rcases List.mem_cons.mp hc with rfl | hc
        · exact node_induct h object
        · rw [List.mem_singleton.mp hc]
          exact node_induct h property
  | .unaryExpression id operator argument =>
      h _ fun c hc => by
        rw [List.mem_singleton.mp hc]
        exact node_induct h argument
  | .binaryExpression id operator left right =>
      h _ fun c hc => by
        rcases List.mem_cons.mp hc with rfl | hc
        · exact node_induct h left
        · rw [List.mem_singleton.mp hc]
          exact node_induct h right
  | .program id body => h _ fun c hc => nodes_induct h body c hc
  | .expressionStatement id expression =>
      h _ fun c hc => by
        rw [List.mem_singleton.mp hc]
        exact node_induct h expression
  | .functionExpression id name params rest =>
      h _ fun c hc => by
        rcases List.mem_append.mp hc with hfront | hrest
        · rcases List.mem_append.mp hfront with hname | hparam
          · exact nodes_induct h name c hname
          · exact nodes_induct h params c hparam
        · exact nodes_induct h rest c hrest
  | .other id children => h _ fun c hc => nodes_induct h children c hc

theorem nodes_induct {P : Node → Prop} (h : ∀ n, (∀ c ∈ childUses n, P c.2) → P n) :
    ∀ nodes : List Node, ∀ c ∈ everywhere nodes, P c.2
  | [], c, hc => by cases hc
  | node :: rest, c, hc => by
      rcases List.mem_cons.mp hc with rfl | hrest
      · exact node_induct h node
      · exact nodes_induct h rest c hrest

end

section

variable (coords : Nat → Option (UInt32 × UInt32)) (decl : Decl)

theorem visitAll_eq (nodes : List Node) (s : Scan) :
    visitAll coords decl nodes s =
      (everywhere nodes).foldl (fun s c => visit coords decl c.2 s) s := by
  induction nodes generalizing s with
  | nil => rfl
  | cons node rest ih => simp [visitAll, ih, everywhere]

/-- Visiting a node is its overload and then the visits of its children. -/
theorem visit_eq (node : Node) (s : Scan) :
    visit coords decl node s = (childUses node).foldl (fun s c => visit coords decl c.2 s)
      (enter coords decl node s) := by
  cases node <;> simp [visit, childUses, visitAll_eq, List.foldl_append, everywhere]

end

/-! ### What a tree says about its requires -/

section

variable (decl : Decl)

/-- A call of `require` or of `require.resolve`, with its arguments. -/
def requireCall : Node → Option (List Node)
  | .callExpression _ callee _ arguments | .optionalCallExpression _ callee _ arguments =>
      if isRequire decl callee || isRequireResolveCallee decl callee then some arguments else none
  | _ => none

/-- The text a call names. -/
def literalAt (node : Node) : Option Bytes :=
  match requireCall decl node with
  | some (first :: _) => extractLiteral first
  | _ => none

/-- The use that cannot be followed: a call whose argument is no literal, or a reference that nothing
explains and that is not the parameter itself. -/
def gapAt (param : Nat) (c : Use × Node) : Option RequireGapKind :=
  match requireCall decl c.2 with
  | some (first :: _) => if (extractLiteral first).isNone then some .kComputedArgument else none
  | some [] => none
  | none =>
      if isRequire decl c.2 && !c.1.explained && c.2.id != param then some .kEscapedValue else none

end

section

variable (coords : Nat → Option (UInt32 × UInt32)) (decl : Decl) (param : Nat)

/-- The specifiers after one node. -/
def noteLiteral (out : List RequireSpecifier) (node : Node) : List RequireSpecifier :=
  match literalAt decl node with
  | some value => addSpecifier coords node value out
  | none => out

/-- The gaps of one node, if its position is found. -/
def noteGap (c : Use × Node) : Option RequireGap :=
  (gapAt decl param c).bind fun kind =>
    (sourceCoords coords c.2).map fun (line, column) => { kind, line, column }

/-- The addresses of the nodes of a tree. -/
def addresses (use : Use) (node : Node) : List Nat := (occurrences use node).map fun c => c.2.id

/-- What the visitor's set has to say when it gets to a node: the reference at the node itself is in
it when its place explains it, and of those below it only the parameter is. -/
structure Ready (use : Use) (node : Node) (s : Scan) : Prop where
  here : isRequire decl node = true →
    (node.id ∈ s.accounted ↔ use.explained = true ∨ node.id = param)
  below : ∀ c ∈ childUses node, ∀ d ∈ occurrences c.1 c.2, isRequire decl d.2 = true →
    (d.2.id ∈ s.accounted ↔ d.2.id = param)

/-- What visiting a node does. -/
structure Follows (use : Use) (node : Node) (s s' : Scan) : Prop where
  out : s'.out = (occurrences use node).foldl (fun out c => noteLiteral coords decl out c.2) s.out
  gaps : s'.gaps = s.gaps.map fun gaps =>
    gaps ++ (occurrences use node).filterMap (noteGap coords decl param)
  accounted : ∀ id, id ∉ addresses use node → (id ∈ s'.accounted ↔ id ∈ s.accounted)

variable {coords decl param}

theorem record_eq (kind : RequireGapKind) (node : Node) (s : Scan) :
    record coords kind node s = { s with gaps := s.gaps.map fun gaps =>
      gaps ++ ((sourceCoords coords node).map fun p => RequireGap.mk kind p.1 p.2).toList } := by
  obtain ⟨out, gaps, accounted⟩ := s
  unfold record
  cases gaps with
  | none => rfl
  | some gaps =>
      cases hcoords : sourceCoords coords node with
      | none => simp
      | some p => simp

theorem noteGap_of_none {c : Use × Node} (h : gapAt decl param c = none) :
    noteGap coords decl param c = none := by
  rw [noteGap, h]
  rfl

theorem noteGap_of_some {c : Use × Node} {kind : RequireGapKind}
    (h : gapAt decl param c = some kind) :
    noteGap coords decl param c =
      (sourceCoords coords c.2).map fun p => RequireGap.mk kind p.1 p.2 := by
  rw [noteGap, h]
  rfl

/-- The node is a call of either kind. -/
def IsCall (node callee : Node) (arguments : List Node) : Prop :=
  ∃ id types, node = .callExpression id callee types arguments ∨
    node = .optionalCallExpression id callee types arguments

/-- What `collect` does: it notes the literal or the gap of the call, and the callee if it is
`require`. -/
theorem collect_eq {node callee : Node} {arguments : List Node} (h : IsCall node callee arguments)
    (use : Use) (s : Scan) :
    collect coords decl node callee arguments s =
      { out := noteLiteral coords decl s.out node
        gaps := s.gaps.map fun gaps => gaps ++ (noteGap coords decl param (use, node)).toList
        accounted := (accountFor decl callee s).accounted } := by
  have hcall : requireCall decl node =
      if isRequire decl callee || isRequireResolveCallee decl callee then some arguments
      else none := by
    obtain ⟨id, types, rfl | rfl⟩ := h
    · rfl
    · rfl
  have hnot : isRequire decl node = false := by
    obtain ⟨id, types, rfl | rfl⟩ := h
    · rfl
    · rfl
  have hstart : (if isRequire decl callee then { s with accounted := callee.id :: s.accounted }
      else s) = accountFor decl callee s := rfl
  have hout : (accountFor decl callee s).out = s.out := by
    unfold accountFor
    split <;> rfl
  have hgaps : (accountFor decl callee s).gaps = s.gaps := by
    unfold accountFor
    split <;> rfl
  have hplain : requireCall decl node = none ∨ requireCall decl node = some [] →
      accountFor decl callee s =
        { out := noteLiteral coords decl s.out node
          gaps := s.gaps.map fun gaps => gaps ++ (noteGap coords decl param (use, node)).toList
          accounted := (accountFor decl callee s).accounted } := by
    intro hcases
    have hgap : gapAt decl param (use, node) = none := by
      rcases hcases with hnone | hempty
      · simp [gapAt, hnone, hnot]
      · simp [gapAt, hempty]
    have hliteral : literalAt decl node = none := by
      rcases hcases with hnone | hempty
      · simp [literalAt, hnone]
      · simp [literalAt, hempty]
    rw [noteGap_of_none hgap, noteLiteral, hliteral]
    simp [← hout, ← hgaps]
  unfold collect
  dsimp only
  rw [hstart]
  by_cases htarget : (isRequire decl callee || isRequireResolveCallee decl callee) = true
  · have hskip : (!isRequire decl callee && !isRequireResolveCallee decl callee) = false := by
      rw [← Bool.not_or, htarget]
      rfl
    rw [if_pos htarget] at hcall
    rw [hskip, if_neg Bool.false_ne_true]
    cases arguments with
    | nil => exact hplain (Or.inr hcall)
    | cons first rest =>
        cases hfirst : extractLiteral first with
        | none =>
            have hgap : gapAt decl param (use, node) = some .kComputedArgument := by
              simp [gapAt, hcall, hfirst]
            have hliteral : literalAt decl node = none := by simp [literalAt, hcall, hfirst]
            dsimp only
            rw [hfirst]
            dsimp only
            rw [record_eq, noteGap_of_some hgap, noteLiteral, hliteral, hout, hgaps]
        | some value =>
            have hgap : gapAt decl param (use, node) = none := by simp [gapAt, hcall, hfirst]
            have hliteral : literalAt decl node = some value := by
              simp [literalAt, hcall, hfirst]
            dsimp only
            rw [hfirst]
            dsimp only
            rw [noteGap_of_none hgap, noteLiteral, hliteral, hout, hgaps]
            simp
  · have hskip : (!isRequire decl callee && !isRequireResolveCallee decl callee) = true := by
      rw [← Bool.not_or]
      simpa using htarget
    rw [if_neg htarget] at hcall
    rw [hskip, if_pos rfl]
    exact hplain (Or.inl hcall)

theorem accountFor_out (node : Node) (s : Scan) : (accountFor decl node s).out = s.out := by
  unfold accountFor
  split <;> rfl

theorem accountFor_gaps (node : Node) (s : Scan) : (accountFor decl node s).gaps = s.gaps := by
  unfold accountFor
  split <;> rfl

theorem mem_accountFor {node : Node} {s : Scan} {id : Nat} :
    id ∈ (accountFor decl node s).accounted ↔
      (isRequire decl node = true ∧ id = node.id) ∨ id ∈ s.accounted := by
  unfold accountFor
  by_cases h : isRequire decl node = true
  · simp [h]
  · simp [h]

/-- The children a node speaks for. -/
def explainedChildren (node : Node) : List Node :=
  ((childUses node).filter fun c => c.1.explained).map Prod.snd

theorem filter_everywhere (nodes : List Node) :
    (everywhere nodes).filter (fun c => c.1.explained) = [] := by
  induction nodes with
  | nil => rfl
  | cons node rest ih => simp [everywhere, Use.explained]

theorem gapAt_of_plain {use : Use} {node : Node} (hcall : requireCall decl node = none)
    (hnot : isRequire decl node = false) : gapAt decl param (use, node) = none := by
  simp [gapAt, hcall, hnot]

theorem notes_nothing {use : Use} {node : Node} {s s' : Scan} (hcall : requireCall decl node = none)
    (hnot : isRequire decl node = false) (hout : s'.out = s.out) (hgaps : s'.gaps = s.gaps) :
    s'.out = noteLiteral coords decl s.out node ∧ s'.gaps = s.gaps.map fun gaps =>
      gaps ++ (noteGap coords decl param (use, node)).toList := by
  rw [noteGap_of_none (gapAt_of_plain hcall hnot), hout, hgaps]
  constructor
  · simp [noteLiteral, literalAt, hcall]
  · simp

/-- What the overload of a node has to do. -/
def EnterSpec (coords : Nat → Option (UInt32 × UInt32)) (decl : Decl) (param : Nat) (use : Use)
    (node : Node) (s s' : Scan) : Prop :=
  (s'.out = noteLiteral coords decl s.out node ∧ s'.gaps = s.gaps.map fun gaps =>
    gaps ++ (noteGap coords decl param (use, node)).toList) ∧
  ∀ id, id ∈ s'.accounted ↔
    (∃ c ∈ explainedChildren node, isRequire decl c = true ∧ id = c.id) ∨ id ∈ s.accounted

theorem enter_plain {use : Use} {node : Node} {s s' : Scan} (hcall : requireCall decl node = none)
    (hnot : isRequire decl node = false) (hchildren : explainedChildren node = [])
    (hsame : s' = s) : EnterSpec coords decl param use node s s' := by
  subst hsame
  exact ⟨notes_nothing hcall hnot rfl rfl, fun id => by simp [hchildren]⟩

theorem enter_accounts {use : Use} {node child : Node} {s s' : Scan}
    (hcall : requireCall decl node = none) (hnot : isRequire decl node = false)
    (hchildren : explainedChildren node = [child]) (hsame : s' = accountFor decl child s) :
    EnterSpec coords decl param use node s s' := by
  subst hsame
  refine ⟨notes_nothing hcall hnot (accountFor_out child s) (accountFor_gaps child s), fun id => ?_⟩
  rw [mem_accountFor]
  simp [hchildren]

theorem enter_call {use : Use} {node callee : Node} {arguments : List Node} {s : Scan}
    (h : IsCall node callee arguments) :
    EnterSpec coords decl param use node s (collect coords decl node callee arguments s) := by
  have hchildren : explainedChildren node = [callee] := by
    obtain ⟨id, types, rfl | rfl⟩ := h
    · rw [explainedChildren, childUses, List.filter_append, filter_everywhere, List.filter_cons,
        filter_everywhere]
      rfl
    · rw [explainedChildren, childUses, List.filter_append, filter_everywhere, List.filter_cons,
        filter_everywhere]
      rfl
  rw [@collect_eq coords decl param node callee arguments h use s]
  refine ⟨⟨rfl, rfl⟩, fun id => ?_⟩
  rw [mem_accountFor]
  simp [hchildren]

/-- An identifier is noted when it is `require` and nothing before it put it into the set. -/
theorem enter_identifier {use : Use} {id : Nat} {name : Bytes} {binding : Binding}
    {note : List Node} {s : Scan}
    (hready : Ready decl param use (.identifier id name binding note) s) :
    EnterSpec coords decl param use (.identifier id name binding note) s
      (enter coords decl (.identifier id name binding note) s) := by
  have hchildren : explainedChildren (.identifier id name binding note) = [] := by
    simp [explainedChildren, childUses, filter_everywhere]
  by_cases hreq : isRequire decl (.identifier id name binding note) = true
  · have hhere : id ∈ s.accounted ↔ use.explained = true ∨ id = param := hready.here hreq
    have hliteral : literalAt decl (.identifier id name binding note) = none := rfl
    by_cases hmem : id ∈ s.accounted
    · have hgap : gapAt decl param (use, .identifier id name binding note) = none := by
        rcases hhere.mp hmem with hexplained | hparam
        · simp [gapAt, requireCall, hexplained]
        · simp [gapAt, requireCall, Node.id, hparam]
      have henter : enter coords decl (.identifier id name binding note) s = s := by
        simp [enter, hmem]
      rw [henter]
      refine ⟨⟨?_, ?_⟩, fun i => by simp [hchildren]⟩
      · simp [noteLiteral, hliteral]
      · simp [noteGap_of_none hgap]
    · rw [hhere, not_or] at hmem
      have hgap : gapAt decl param (use, .identifier id name binding note) =
          some .kEscapedValue := by
        simp [gapAt, requireCall, hreq, hmem.1, Node.id, hmem.2]
      have hout : id ∉ s.accounted := by rw [hhere, not_or]; exact hmem
      have henter : enter coords decl (.identifier id name binding note) s =
          record coords .kEscapedValue (.identifier id name binding note) s := by
        simp [enter, hreq, hout]
      rw [henter, record_eq]
      refine ⟨⟨?_, ?_⟩, fun i => by simp [hchildren]⟩
      · simp [noteLiteral, hliteral]
      · rw [noteGap_of_some hgap]
  · rw [Bool.not_eq_true] at hreq
    have henter : enter coords decl (.identifier id name binding note) s = s := by
      simp [enter, hreq]
    exact enter_plain rfl hreq hchildren henter

theorem enter_spec {use : Use} {node : Node} {s : Scan} (hready : Ready decl param use node s) :
    EnterSpec coords decl param use node s (enter coords decl node s) := by
  cases node with
  | identifier id name binding note => exact enter_identifier hready
  | callExpression id callee types arguments => exact enter_call ⟨id, types, Or.inl rfl⟩
  | optionalCallExpression id callee types arguments => exact enter_call ⟨id, types, Or.inr rfl⟩
  | memberExpression id object property computed => exact enter_accounts rfl rfl rfl rfl
  | optionalMemberExpression id object property computed => exact enter_accounts rfl rfl rfl rfl
  | unaryExpression id operator argument =>
      by_cases htests : testsOperand operator = true
      · have hchildren : explainedChildren (.unaryExpression id operator argument) =
            [argument] := by
          simp [explainedChildren, childUses, htests, Use.explained]
        exact enter_accounts rfl rfl hchildren (by simp [enter, htests])
      · apply enter_plain rfl rfl
        · simp [explainedChildren, childUses, htests, Use.explained]
        · simp [enter, htests]
  | binaryExpression id operator left right =>
      by_cases hequal : isEquality operator = true
      · have henter : enter coords decl (.binaryExpression id operator left right) s =
            accountFor decl right (accountFor decl left s) := by
          simp [enter, hequal]
        rw [henter]
        refine ⟨notes_nothing rfl rfl ?_ ?_, fun i => ?_⟩
        · rw [accountFor_out, accountFor_out]
        · rw [accountFor_gaps, accountFor_gaps]
        · rw [mem_accountFor, mem_accountFor]
          simp [explainedChildren, childUses, hequal, Use.explained]
          tauto
      · apply enter_plain rfl rfl
        · simp [explainedChildren, childUses, hequal, Use.explained]
        · simp [enter, hequal]
  | stringLiteral id value => exact enter_plain rfl rfl rfl rfl
  | templateLiteral id quasi quasis expressions =>
      exact enter_plain rfl rfl (by simp [explainedChildren, childUses, filter_everywhere]) rfl
  | program id body =>
      exact enter_plain rfl rfl (by simp [explainedChildren, childUses, filter_everywhere]) rfl
  | expressionStatement id expression => exact enter_plain rfl rfl rfl rfl
  | functionExpression id name params rest =>
      exact enter_plain rfl rfl (by simp [explainedChildren, childUses, filter_everywhere]) rfl
  | other id children =>
      exact enter_plain rfl rfl (by simp [explainedChildren, childUses, filter_everywhere]) rfl

/-! ### The whole walk -/

/-- The addresses in a list of children. -/
def addressesOf (cs : List (Use × Node)) : List Nat := cs.flatMap fun c => addresses c.1 c.2

theorem addresses_eq (use : Use) (node : Node) :
    addresses use node = node.id :: addressesOf (childUses node) := by
  rw [addresses, occurrences_eq, List.map_cons, List.map_flatMap]
  rfl

theorem root_mem_addresses (use : Use) (node : Node) : node.id ∈ addresses use node := by
  rw [addresses_eq]
  exact List.mem_cons_self

theorem children_disjoint {cs : List (Use × Node)} (h : (addressesOf cs).Nodup)
    {c c' : Use × Node} (hc : c ∈ cs) (hc' : c' ∈ cs) {id : Nat} (hid : id ∈ addresses c.1 c.2)
    (hid' : id ∈ addresses c'.1 c'.2) : c = c' := by
  by_contra hne
  have hpair := (List.nodup_flatMap.mp h).2
  have hsymm : Std.Symm (Function.onFun List.Disjoint fun c : Use × Node => addresses c.1 c.2) :=
    ⟨fun _ _ hxy => List.Disjoint.symm hxy⟩
  have hdisjoint := hpair.forall hc hc' hne
  exact hdisjoint hid hid'

/-- Behind its overload, a node's children find the set as they need it. -/
theorem ready_children {use : Use} {node : Node} {s s' : Scan}
    (hnodup : (addresses use node).Nodup) (hready : Ready decl param use node s)
    (henter : EnterSpec coords decl param use node s s') :
    ∀ c ∈ childUses node, Ready decl param c.1 c.2 s' := by
  rw [addresses_eq, List.nodup_cons] at hnodup
  have hspoken : ∀ {id : Nat}, (∃ e ∈ explainedChildren node, isRequire decl e = true ∧ id = e.id) →
      ∃ c' ∈ childUses node, c'.1.explained = true ∧ id = c'.2.id := by
    rintro id ⟨e, he, _, rfl⟩
    obtain ⟨c', hc', rfl⟩ := List.mem_map.mp he
    obtain ⟨hmem, hexplained⟩ := List.mem_filter.mp hc'
    exact ⟨c', hmem, hexplained, rfl⟩
  intro c hc
  constructor
  · intro hreq
    rw [henter.2]
    have hroot : (c.1, c.2) ∈ occurrences c.1 c.2 := by
      rw [occurrences_eq]
      exact List.mem_cons_self
    have hbefore := hready.below c hc _ hroot hreq
    rw [show ((c.1, c.2) : Use × Node).2.id = c.2.id from rfl] at hbefore
    rw [hbefore]
    constructor
    · rintro (hspoke | hparam)
      · obtain ⟨c', hc', hexplained, hid⟩ := hspoken hspoke
        have hmem := root_mem_addresses c'.1 c'.2
        rw [← hid] at hmem
        rw [children_disjoint hnodup.2 hc hc' (root_mem_addresses c.1 c.2) hmem]
        exact Or.inl hexplained
      · exact Or.inr hparam
    · rintro (hexplained | hparam)
      · refine Or.inl ⟨c.2, ?_, hreq, rfl⟩
        exact List.mem_map_of_mem (List.mem_filter.mpr ⟨hc, hexplained⟩)
      · exact Or.inr hparam
  · intro g hg d hd hreq
    have hbelow : d ∈ (childUses c.2).flatMap fun g => occurrences g.1 g.2 :=
      List.mem_flatMap.mpr ⟨g, hg, hd⟩
    have hin : d ∈ occurrences c.1 c.2 := by
      rw [occurrences_eq]
      exact List.mem_cons_of_mem _ hbelow
    have haddress : d.2.id ∈ addresses c.1 c.2 := List.mem_map_of_mem hin
    rw [henter.2, hready.below c hc d hin hreq]
    apply or_iff_right
    intro hspoke
    obtain ⟨c', hc', _, hid⟩ := hspoken hspoke
    have hmem := root_mem_addresses c'.1 c'.2
    rw [← hid] at hmem
    have hsame := children_disjoint hnodup.2 hc hc' haddress hmem
    have hown : (addresses c.1 c.2).Nodup := (List.nodup_flatMap.mp hnodup.2).1 c hc
    rw [addresses_eq, List.nodup_cons] at hown
    apply hown.1
    rw [hsame, ← hid, ← hsame]
    have hdeep : d.2.id ∈ ((childUses c.2).flatMap fun g => occurrences g.1 g.2).map
        fun d => d.2.id := List.mem_map_of_mem hbelow
    rw [List.map_flatMap] at hdeep
    exact hdeep

/-- What visiting a list of children does. -/
structure FollowsAll (coords : Nat → Option (UInt32 × UInt32)) (decl : Decl) (param : Nat)
    (cs : List (Use × Node)) (s s' : Scan) : Prop where
  out : s'.out = (cs.flatMap fun c => occurrences c.1 c.2).foldl
    (fun out c => noteLiteral coords decl out c.2) s.out
  gaps : s'.gaps = s.gaps.map fun gaps =>
    gaps ++ (cs.flatMap fun c => occurrences c.1 c.2).filterMap (noteGap coords decl param)
  accounted : ∀ id, id ∉ addressesOf cs → (id ∈ s'.accounted ↔ id ∈ s.accounted)

theorem children_follow {cs : List (Use × Node)} {s : Scan}
    (hvisit : ∀ c ∈ cs, ∀ s, (addresses c.1 c.2).Nodup → Ready decl param c.1 c.2 s →
      Follows coords decl param c.1 c.2 s (visit coords decl c.2 s))
    (hnodup : (addressesOf cs).Nodup) (hready : ∀ c ∈ cs, Ready decl param c.1 c.2 s) :
    FollowsAll coords decl param cs s (cs.foldl (fun s c => visit coords decl c.2 s) s) := by
  induction cs generalizing s with
  | nil => exact ⟨rfl, by simp, fun _ _ => Iff.rfl⟩
  | cons c rest ih =>
      have hparts : (addresses c.1 c.2 ++ addressesOf rest).Nodup := hnodup
      obtain ⟨hfirst, hrest, hdisjoint⟩ := List.nodup_append.mp hparts
      have hthis := hvisit c (by simp) s hfirst (hready c (by simp))
      -- The first child leaves the addresses of the others alone.
      have hkept : ∀ {id : Nat}, id ∈ addressesOf rest →
          (id ∈ (visit coords decl c.2 s).accounted ↔ id ∈ s.accounted) := by
        intro id hid
        exact hthis.accounted id fun hmem => hdisjoint id hmem id hid rfl
      have hstill : ∀ c' ∈ rest, Ready decl param c'.1 c'.2 (visit coords decl c.2 s) := by
        intro c' hc'
        have hold := hready c' (List.mem_cons_of_mem _ hc')
        constructor
        · intro hreq
          rw [hkept (List.mem_flatMap.mpr ⟨c', hc', root_mem_addresses c'.1 c'.2⟩)]
          exact hold.here hreq
        · intro g hg d hd hreq
          have hin : d ∈ occurrences c'.1 c'.2 := by
            rw [occurrences_eq]
            exact List.mem_cons_of_mem _ (List.mem_flatMap.mpr ⟨g, hg, hd⟩)
          rw [hkept (List.mem_flatMap.mpr ⟨c', hc', List.mem_map_of_mem hin⟩)]
          exact hold.below g hg d hd hreq
      have hothers := ih (fun c' hc' => hvisit c' (List.mem_cons_of_mem _ hc')) hrest hstill
      constructor
      · rw [List.foldl_cons, hothers.out, hthis.out, List.flatMap_cons, List.foldl_append]
      · rw [List.foldl_cons, hothers.gaps, hthis.gaps, Option.map_map, List.flatMap_cons,
          List.filterMap_append]
        cases s.gaps with
        | none => rfl
        | some gaps => simp
      · intro id hid
        have hnot : id ∉ addresses c.1 c.2 ∧ id ∉ addressesOf rest := by
          rw [← not_or, ← List.mem_append]
          exact hid
        rw [List.foldl_cons, hothers.accounted id hnot.2, hthis.accounted id hnot.1]

/-- Visiting a node notes the literals and gaps of all its occurrences, in order. -/
theorem visit_follows (node : Node) : ∀ (use : Use) (s : Scan), (addresses use node).Nodup →
    Ready decl param use node s →
    Follows coords decl param use node s (visit coords decl node s) := by
  apply node_induct _ node
  intro node ih use s hnodup hready
  have henter := @enter_spec coords decl param use node s hready
  have hchildren := ready_children hnodup hready henter
  have haddresses := hnodup
  rw [addresses_eq, List.nodup_cons] at haddresses
  have hall := children_follow (fun c hc => ih c hc c.1) haddresses.2 hchildren
  rw [visit_eq]
  constructor
  · rw [hall.out, henter.1.1, occurrences_eq, List.foldl_cons]
  · rw [hall.gaps, henter.1.2, occurrences_eq, Option.map_map]
    cases s.gaps with
    | none => rfl
    | some gaps =>
        cases hgap : noteGap coords decl param (use, node) with
        | none => simp [hgap]
        | some gap => simp [hgap]
  · intro id hid
    rw [addresses_eq, List.mem_cons, not_or] at hid
    rw [hall.accounted id hid.2, henter.2]
    apply or_iff_right
    rintro ⟨e, he, _, rfl⟩
    obtain ⟨c, hc, rfl⟩ := List.mem_map.mp he
    exact hid.2 (List.mem_flatMap.mpr ⟨c, (List.mem_filter.mp hc).1, root_mem_addresses c.1 c.2⟩)

end

/-! ### Complete -/

/-- A tree: its nodes are at different addresses. -/
structure SyntaxTree where
  root : Node
  distinct : (addresses .elsewhere root).Nodup

namespace SyntaxTree

/-- All nodes with their places, in the order they are visited. -/
def nodes (tree : SyntaxTree) : List (Use × Node) := occurrences .elsewhere tree.root

/-- The texts that are required, in the order of their calls. -/
def literals (tree : SyntaxTree) (decl : Decl) : List Bytes :=
  tree.nodes.filterMap fun c => literalAt decl c.2

/-- The uses that cannot be followed, each with its node. -/
def gapsOf (tree : SyntaxTree) (param : Nat) (decl : Decl) : List (RequireGapKind × Node) :=
  tree.nodes.filterMap fun c => (gapAt decl param c).map (·, c.2)

end SyntaxTree

section

variable {coords : Nat → Option (UInt32 × UInt32)} {decl : Decl} {param : Nat}

theorem addSpecifier_spec (node : Node) (value : Bytes) (out : List RequireSpecifier) :
    out <+: addSpecifier coords node value out ∧
      (addSpecifier coords node value out).map (·.text) = discover (out.map (·.text)) [value] := by
  unfold addSpecifier
  by_cases hany : (out.any fun spec => spec.text == value) = true
  · have hmem : value ∈ out.map (·.text) := by
      simpa [List.any_eq_true, List.mem_map] using hany
    rw [if_pos hany]
    exact ⟨List.prefix_rfl, by simp only [discover_cons, if_pos hmem]; rfl⟩
  · have hmem : value ∉ out.map (·.text) := by
      simpa [List.any_eq_true, List.mem_map] using hany
    rw [if_neg hany]
    simp only [discover_cons, if_neg hmem]
    cases sourceCoords coords node with
    | none => exact ⟨List.prefix_append _ _, by simp [discover]⟩
    | some p => exact ⟨List.prefix_append _ _, by simp [discover]⟩

theorem noteLiterals_spec (cs : List (Use × Node)) (out : List RequireSpecifier) :
    out <+: cs.foldl (fun out c => noteLiteral coords decl out c.2) out ∧
      (cs.foldl (fun out c => noteLiteral coords decl out c.2) out).map (·.text) =
        discover (out.map (·.text)) (cs.filterMap fun c => literalAt decl c.2) := by
  induction cs generalizing out with
  | nil => exact ⟨List.prefix_rfl, rfl⟩
  | cons c rest ih =>
      rw [List.foldl_cons]
      obtain ⟨hstarts, htexts⟩ := ih (noteLiteral coords decl out c.2)
      rw [htexts]
      cases hliteral : literalAt decl c.2 with
      | none =>
          have hnote : noteLiteral coords decl out c.2 = out := by simp [noteLiteral, hliteral]
          rw [hnote] at hstarts ⊢
          exact ⟨hstarts, by simp [hliteral]⟩
      | some value =>
          have hnote : noteLiteral coords decl out c.2 = addSpecifier coords c.2 value out := by
            simp [noteLiteral, hliteral]
          obtain ⟨hfirst, hadded⟩ := @addSpecifier_spec coords c.2 value out
          rw [hnote] at hstarts ⊢
          refine ⟨hfirst.trans hstarts, ?_⟩
          rw [hadded, List.filterMap_cons, hliteral]
          exact (discover_append _ [value] _).symm

theorem noteGaps_spec (hfound : ∀ id, (coords id).isSome = true) (cs : List (Use × Node)) :
    (cs.filterMap (noteGap coords decl param)).map some =
      (cs.filterMap fun c => (gapAt decl param c).map (·, c.2)).map fun gap =>
        (sourceCoords coords gap.2).map fun p => RequireGap.mk gap.1 p.1 p.2 := by
  induction cs with
  | nil => rfl
  | cons c rest ih =>
      cases hgap : gapAt decl param c with
      | none => simp [noteGap_of_none hgap, hgap, ih]
      | some kind =>
          obtain ⟨p, hp⟩ := Option.isSome_iff_exists.mp (hfound c.2.id)
          have hcoords : sourceCoords coords c.2 = some (p.1, unwrapCoords p.1 p.2) := by
            simp [sourceCoords, hp]
          have hnote := @noteGap_of_some coords decl param c kind hgap
          rw [hcoords] at hnote
          simp [hnote, hgap, hcoords, ih]

/-- For every tree with the wrapper's `require` in it: the specifiers are the literals of its calls,
each where it occurs first, and the gaps are the calls without a literal and the references that
escape, each once and in order. -/
theorem scanTree_complete (tree : SyntaxTree)
    (hrequire : findRequire tree.root = some (param, decl))
    (hfound : ∀ id, (coords id).isSome = true) (out : List RequireSpecifier)
    (gaps : Option (List RequireGap)) :
    ∃ specifiers found, scanTree coords tree.root out gaps =
        .ok (out ++ specifiers, gaps.map (· ++ found)) ∧
      (out ++ specifiers).map (·.text) = discover (out.map (·.text)) (tree.literals decl) ∧
      found.map some = (tree.gapsOf param decl).map fun gap =>
        (sourceCoords coords gap.2).map fun p => RequireGap.mk gap.1 p.1 p.2 := by
  have hready : Ready decl param .elsewhere tree.root { out, gaps, accounted := [param] } := by
    constructor
    · intro _
      simp [Use.explained]
    · intro c _ d _ _
      simp
  have hfollows := @visit_follows coords decl param tree.root .elsewhere _ tree.distinct hready
  obtain ⟨hstarts, htexts⟩ := @noteLiterals_spec coords decl tree.nodes out
  obtain ⟨specifiers, hspecifiers⟩ := hstarts
  refine ⟨specifiers, tree.nodes.filterMap (noteGap coords decl param), ?_, ?_,
    noteGaps_spec hfound tree.nodes⟩
  · rw [scanTree, hrequire]
    dsimp only
    rw [hfollows.out, hfollows.gaps, hspecifiers]
    rfl
  · rw [hspecifiers]
    exact htexts

/-- A reference, at an address, to the declaration with a number. -/
def reference (id decl : Nat) : Node :=
  .identifier id (ascii "require") { expressionDecl := some decl } []

/-- The body `require('a'); f(require); typeof require; require(r); require.resolve('a');` where `r`
is a `require` of its own. -/
def sampleBody : List Node :=
  [.callExpression 10 (reference 11 7) [] [.stringLiteral 12 (ascii "a")],
    .callExpression 20 (.identifier 21 (ascii "f") {} []) [] [reference 22 7],
    .unaryExpression 30 (ascii "typeof") (reference 31 7),
    .callExpression 40 (reference 41 7) [] [reference 42 8],
    .callExpression 50 (.memberExpression 51 (reference 52 7)
      (.identifier 53 (ascii "resolve") {} []) false) [] [.stringLiteral 54 (ascii "a")]]

def sampleTree : SyntaxTree where
  root := .program 1 [.expressionStatement 2 (.functionExpression 3 []
    [.identifier 4 (ascii "require") { expressionDecl := some 7, declarationDecl := some 7 } []]
    [.other 5 sampleBody])]
  distinct := by decide

theorem sampleTree_scanned :
    sampleTree.literals 7 = [ascii "a", ascii "a"] ∧
    (sampleTree.gapsOf 4 7).map (fun gap => (gap.1, gap.2.id)) =
      [(.kEscapedValue, 22), (.kComputedArgument, 40)] ∧
    ∃ specifiers found, scanTree (fun _ => some (2, 1)) sampleTree.root [] (some []) =
        .ok (specifiers, some found) ∧
      specifiers.map (·.text) = [ascii "a"] ∧
      found.map (·.kind) = [.kEscapedValue, .kComputedArgument] := by
  have hliterals : sampleTree.literals 7 = [ascii "a", ascii "a"] := by decide
  have hgaps : (sampleTree.gapsOf 4 7).map (fun gap => (gap.1, gap.2.id)) =
      [(.kEscapedValue, 22), (.kComputedArgument, 40)] := by decide
  obtain ⟨specifiers, found, hscan, htexts, hfound⟩ :=
    @scanTree_complete (fun _ => some (2, 1)) 7 4 sampleTree (by decide) (fun _ => rfl) []
      (some [])
  refine ⟨hliterals, hgaps, specifiers, found, hscan, ?_, ?_⟩
  · rw [List.nil_append, hliterals] at htexts
    rw [htexts]
    decide
  · have hkinds := congrArg (List.map (Option.map RequireGap.kind)) hfound
    have hfirst := congrArg (List.map Prod.fst) hgaps
    simp only [List.map_map, Function.comp_def, sourceCoords, Option.map_some] at hkinds hfirst
    have hsome : (found.map (·.kind)).map some = ((sampleTree.gapsOf 4 7).map (·.1)).map some := by
      simpa only [List.map_map, Function.comp_def] using hkinds
    rw [List.map_injective_iff.mpr (Option.some_injective _) hsome, hfirst]
    rfl

end

end HermesNode.Build.Scanner
