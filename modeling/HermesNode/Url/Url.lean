/-
Module: HermesNode.Url.Url
Purpose: The URL object and its URLSearchParams of the `internal/url` shim: the parsed list, its
  mutators and its serialization, the property setters over the Ada binding, and the back-reference
  by which a mutated list updates the URL. A step is one operation on the object; it may throw, and
  then leaves what it had changed before.
Trusted boundary: assumed contract (the Ada binding is a parameter; `Ada.Whatwg` is what the URL
  standard says of it)
Main exports: Context, parseString, paramsToString, Ada
-/
import HermesNode.Lib.Uri

namespace HermesNode.Url

/-! ### URLSearchParams -/

/-- The name/value list of a URLSearchParams. -/
abbrev Params := List (JsString × JsString)

/-- `replace(/\+/g, ' ')`. -/
def plusToSpace (s : JsString) : JsString := s.map fun c => if c = 43 then 32 else c

/-- A piece between ampersands; there is none when a part of it does not decode. -/
def parsePair (pair : JsString) : Option (JsString × JsString) :=
  if pair.contains 61 then do
    let key ← decodeURIComponent (plusToSpace (pair.takeWhile (· != 61)))
    let value ← decodeURIComponent (plusToSpace ((pair.dropWhile (· != 61)).drop 1))
    pure (key, value)
  else do
    let key ← decodeURIComponent (plusToSpace pair)
    pure (key, [])

/-- The list after the loop over the pieces, and whether it threw on the way. -/
def parsePairs (list : Params) : List JsString → Params × Bool
  | [] => (list, false)
  | pair :: pairs =>
      if pair.isEmpty then parsePairs list pairs
      else
        match parsePair pair with
        | none => (list, true)
        | some p => parsePairs (list ++ [p]) pairs

/-- `_parseString`. -/
def parseString (list : Params) (qs : JsString) : Params × Bool :=
  if qs.isEmpty then (list, false) else parsePairs list (qs.splitOn 38)

/-- `new URLSearchParams(init)` of a string: its list, unless it throws. -/
def newURLSearchParams (init : JsString) : Option Params :=
  match parseString [] (if init.head? = some 63 then init.drop 1 else init) with
  | (list, false) => some list
  | (_, true) => none

theorem newURLSearchParams_eq (init : JsString) :
    newURLSearchParams init =
      let parsed := parseString [] (if init.head? = some 63 then init.drop 1 else init)
      if parsed.2 then none else some parsed.1 := by
  unfold newURLSearchParams
  rcases parseString [] _ with ⟨list, _ | _⟩
  · rfl
  · rfl

/-- `replace(/%20/g, '+')`. -/
def encodedSpaceToPlus : JsString → JsString
  | c :: d :: e :: rest =>
      if c = 37 ∧ d = 50 ∧ e = 48 then 43 :: encodedSpaceToPlus rest
      else c :: encodedSpaceToPlus (d :: e :: rest)
  | s => s

def encodeComponent (s : JsString) : Option JsString :=
  (encodeURIComponent s).map encodedSpaceToPlus

def pairToString (pair : JsString × JsString) : Option JsString := do
  let name ← encodeComponent pair.1
  let value ← encodeComponent pair.2
  pure (name ++ 61 :: value)

/-- `URLSearchParams.prototype.toString`, unless it throws. -/
def paramsToString (list : Params) : Option JsString := do
  let pieces ← list.mapM pairToString
  pure (List.intercalate [38] pieces)

def appendPair (name value : JsString) (list : Params) : Params := list ++ [(name, value)]

def deletePairs (name : JsString) (value : Option JsString) (list : Params) : Params :=
  list.filter fun pair => pair.1 != name || value.any (pair.2 != ·)

/-- The filter of `set`: the first pair of the name gets the value, the others go. -/
def setLoop (name value : JsString) : Bool → Params → Params × Bool
  | found, [] => ([], found)
  | found, pair :: list =>
      if pair.1 != name then
        let rest := setLoop name value found list
        (pair :: rest.1, rest.2)
      else if !found then
        let rest := setLoop name value true list
        ((pair.1, value) :: rest.1, rest.2)
      else setLoop name value found list

def setPair (name value : JsString) (list : Params) : Params :=
  let filtered := setLoop name value false list
  if filtered.2 then filtered.1 else filtered.1 ++ [(name, value)]

/-- The stable sort of the list by its names, by code units. -/
def sortPairs (list : Params) : Params :=
  list.mergeSort fun a b => !(decide (b.1 < a.1))

/-! ### The Ada binding -/

/-- `URLContext`: the components that the search and its getter read. -/
structure Context where
  href : JsString
  search_start : Int
  hash_start : Int
  scheme_type : Nat
deriving Repr, DecidableEq

def kOmittedSigned : Int := -1

/-- The scheme is a special one: not `NOT_SPECIAL`. -/
def Context.special (ctx : Context) : Bool := ctx.scheme_type != 1

/-- The getter of `search`. -/
def Context.search (ctx : Context) : JsString :=
  if ctx.search_start = kOmittedSigned then []
  else
    let endsAt := if ctx.hash_start = kOmittedSigned then (ctx.href.length : Int) else ctx.hash_start
    if endsAt - ctx.search_start ≤ 1 then []
    else (ctx.href.drop ctx.search_start.toNat).take (endsAt - ctx.search_start).toNat

/-- `updateActions`. -/
inductive UpdateAction where
  | kProtocol
  | kHost
  | kHostname
  | kPort
  | kUsername
  | kPassword
  | kPathname
  | kSearch
  | kHash
  | kHref
deriving Repr, DecidableEq

/-- The binding: the URL of a text, and of a URL after an update; there is none on failure. -/
structure Ada where
  parse (input : JsString) (base : Option JsString) : Option Context
  update (href : JsString) (action : UpdateAction) (value : JsString) : Option Context

/-- The URLs that the binding has returned. -/
inductive Ada.Returned (ada : Ada) : Context → Prop where
  | parse {input : JsString} {base : Option JsString} {ctx : Context}
      (h : ada.parse input base = some ctx) : Returned ada ctx
  | update {ctx ctx' : Context} {action : UpdateAction} {value : JsString}
      (before : Returned ada ctx) (h : ada.update ctx.href action value = some ctx') :
      Returned ada ctx'

/-- The query percent-encode set, and the special-query one. -/
def inQuerySet (special : Bool) (cp : Nat) : Bool :=
  cp ≤ 0x1F || 0x7E < cp || [0x20, 0x22, 0x23, 0x3C, 0x3E].contains cp || (special && cp == 0x27)

def queryPoint (special : Bool) (cp : Nat) : JsString :=
  if inQuerySet special cp then percentPoint cp else utf16Of cp

def isTabOrNewline (cp : Nat) : Bool := cp == 9 || cp == 10 || cp == 13

/-- The search of a URL after the standard's `search` setter: unpaired surrogates are replaced, one
leading question mark, tabs and newlines go, and the rest is percent-encoded. -/
def whatwgSearch (special : Bool) (value : JsString) : JsString :=
  let input := if value.head? = some 63 then value.drop 1 else value
  let points := ((codePoints input).map fun cp => cp.getD 0xFFFD).filter (!isTabOrNewline ·)
  let query := points.flatMap (queryPoint special)
  if query.isEmpty then [] else 63 :: query

/-- What the URL standard says of the search of the URLs the binding returns. -/
structure Ada.Whatwg (ada : Ada) : Prop where
  /-- A serialized URL is ASCII. -/
  ascii : ∀ ctx, ada.Returned ctx → ∀ c ∈ ctx.search, c.toNat < 0x80
  /-- The setters of the other components keep the query. -/
  keeps : ∀ ctx ctx' action value, ada.Returned ctx → action ≠ .kSearch → action ≠ .kHref →
    ada.update ctx.href action value = some ctx' → ctx'.search = ctx.search
  /-- The setter of the search does not fail. -/
  search : ∀ ctx value, ada.Returned ctx →
    ∃ ctx', ada.update ctx.href .kSearch value = some ctx' ∧
      ctx'.search = whatwgSearch ctx.special value

/-! ### The URL object -/

/-- `_context`, and the list of `_searchParams` if there is one. -/
structure UrlState where
  context : Context
  searchParams : Option Params
deriving Repr, DecidableEq

/-- `new URL(input, base)` and `URL.parse`. -/
def newURL (ada : Ada) (input : JsString) (base : Option JsString) : Option UrlState :=
  (ada.parse input base).map fun ctx => { context := ctx, searchParams := none }

inductive Op where
  /-- An assignment of the property with this update action. -/
  | assign (action : UpdateAction) (value : JsString)
  | searchParams
  | append (name value : JsString)
  | delete (name : JsString) (value : Option JsString)
  | set (name value : JsString)
  | sort
deriving Repr, DecidableEq

/-- How an operation ends. -/
structure Outcome where
  state : UrlState
  threw : Bool
deriving Repr, DecidableEq

/-- The getter of `searchParams`: the list, unless it throws. -/
def readSearchParams (s : UrlState) : Option Params :=
  match s.searchParams with
  | some list => some list
  | none => newURLSearchParams s.context.search

/-- `_setSearchFromParams`. -/
def setSearchFromParams (ada : Ada) (s : UrlState) (search : JsString) : UrlState :=
  match ada.update s.context.href .kSearch (if search.isEmpty then [] else 63 :: search) with
  | some ctx => { s with context := ctx }
  | none => s

/-- The mutators: the list is changed first, and serialized into the URL then (`_notifyUrl`). -/
def mutate (ada : Ada) (s : UrlState) (change : Params → Params) : Outcome :=
  match readSearchParams s with
  | none => ⟨s, true⟩
  | some list =>
      let changed : UrlState := { s with searchParams := some (change list) }
      match paramsToString (change list) with
      | none => ⟨changed, true⟩
      | some search => ⟨setSearchFromParams ada changed search, false⟩

/-- The setter of `href`. -/
def setHref (ada : Ada) (s : UrlState) (value : JsString) : Outcome :=
  match ada.update s.context.href .kHref value with
  | some ctx => ⟨{ s with context := ctx }, false⟩
  | none => ⟨s, true⟩

/-- The setter of `search`, which parses the list anew. -/
def setSearch (ada : Ada) (s : UrlState) (value : JsString) : Outcome :=
  match ada.update s.context.href .kSearch value with
  | some ctx =>
      match s.searchParams with
      | some _ =>
          let parsed := if 1 < ctx.search.length then parseString [] (ctx.search.drop 1)
            else ([], false)
          ⟨{ context := ctx, searchParams := some parsed.1 }, parsed.2⟩
      | none => ⟨{ s with context := ctx }, false⟩
  | none => ⟨s, false⟩

/-- The other setters, which ignore a failure. -/
def setComponent (ada : Ada) (s : UrlState) (action : UpdateAction) (value : JsString) : Outcome :=
  match ada.update s.context.href action value with
  | some ctx => ⟨{ s with context := ctx }, false⟩
  | none => ⟨s, false⟩

def step (ada : Ada) (s : UrlState) : Op → Outcome
  | .assign .kHref value => setHref ada s value
  | .assign .kSearch value => setSearch ada s value
  | .assign action value => setComponent ada s action value
  | .searchParams =>
      match readSearchParams s with
      | some list => ⟨{ s with searchParams := some list }, false⟩
      | none => ⟨s, true⟩
  | .append name value => mutate ada s (appendPair name value)
  | .delete name value => mutate ada s (deletePairs name value)
  | .set name value => mutate ada s (setPair name value)
  | .sort => mutate ada s sortPairs

/-- The state after some operations, whether they threw or not. -/
def run (ada : Ada) (s : UrlState) (ops : List Op) : UrlState :=
  ops.foldl (fun s op => (step ada s op).state) s

end HermesNode.Url
