/-
Module: HermesNode.Build.SidecarNames
Purpose: What the three passes over the native addons guarantee: every addon gets a name, its own or
  one with a hash in it, and no two the same; the destination is that name beside the bundle; and a
  build whose destinations meet the bundle or the source of another addon is refused.
Trusted boundary: none
Main exports: SidecarNames.Fair, sidecarNames_fair, placeNatives_placed, AsPlaced
-/
import HermesNode.Build.Artifact
import HermesNode.Build.Readable

namespace HermesNode.Build

open HermesNode.Bundle Resolve WorkList

/-! ### Passes 1 and 2 -/

/-- The names given out so far are one for each addon and all different. -/
structure SidecarNames.Fair (names : SidecarNames) : Prop where
  owners : names.owner.map Prod.fst = names.name.map Prod.snd
  distinct : (names.owner.map Prod.fst).Nodup
  once : (names.name.map Prod.fst).Nodup

/-- A name an addon can get. -/
def NameFor (root path name : Bytes) : Prop :=
  name = filename path ∨ name = disambiguated (filename path) (identityOf root path)

theorem lookup_none_iff {β : Type} {key : Bytes} {entries : List (Bytes × β)} :
    entries.lookup key = none ↔ key ∉ entries.map Prod.fst := by
  rw [List.lookup_eq_none_iff]
  simp only [List.mem_map, Prod.exists, exists_and_right, exists_eq_right, not_exists, bne_iff_ne,
    ne_eq, Prod.forall]
  constructor
  · intro h value hmem
    exact h key value hmem rfl
  · intro h k value hmem heq
    rw [← heq] at hmem
    exact h value hmem

theorem mem_of_lookup {β : Type} {key : Bytes} {value : β} {entries : List (Bytes × β)}
    (h : entries.lookup key = some value) : (key, value) ∈ entries := by
  obtain ⟨front, rest, rfl, _⟩ := List.lookup_eq_some_iff.mp h
  simp

variable {names : SidecarNames}

theorem SidecarNames.Fair.give (h : names.Fair) {path name identity : Bytes}
    (hpath : names.name.lookup path = none) (hname : names.owner.lookup name = none) :
    (names.give path name identity).Fair where
  owners := by simp [SidecarNames.give, h.owners]
  distinct := by
    have hnot := lookup_none_iff.mp hname
    simp only [SidecarNames.give, List.map_append, List.map_cons, List.map_nil]
    rw [List.nodup_append]
    refine ⟨h.distinct, List.nodup_singleton _, ?_⟩
    intro a ha b hb hab
    rw [List.mem_singleton.mp hb] at hab
    exact hnot (hab ▸ ha)
  once := by
    have hnot := lookup_none_iff.mp hpath
    simp only [SidecarNames.give, List.map_append, List.map_cons, List.map_nil]
    rw [List.nodup_append]
    refine ⟨h.once, List.nodup_singleton _, ?_⟩
    intro a ha b hb hab
    rw [List.mem_singleton.mp hb] at hab
    exact hnot (hab ▸ ha)

section

variable {disk : Disk} {opts : Options} {root : Bytes}

/-- The names are fair, all of addons in the list, and of a kind an addon can get. -/
structure NamedAmong (root : Bytes) (natives : List Bytes) (names : SidecarNames) : Prop where
  fair : names.Fair
  known : ∀ path name, (path, name) ∈ names.name → path ∈ natives ∧ NameFor root path name

theorem NamedAmong.give {natives : List Bytes} (h : NamedAmong root natives names)
    {path name identity : Bytes} (hpath : names.name.lookup path = none)
    (hname : names.owner.lookup name = none) (hmem : path ∈ natives)
    (hfor : NameFor root path name) :
    NamedAmong root natives (names.give path name identity) where
  fair := h.fair.give hpath hname
  known p n hpn := by
    rcases List.mem_append.mp hpn with hold | hnew
    · exact h.known p n hold
    · rw [List.mem_singleton, Prod.mk.injEq] at hnew
      rw [hnew.1, hnew.2]
      exact ⟨hmem, hfor⟩

theorem NamedAmong.mono {natives more : List Bytes} (h : NamedAmong root natives names)
    (hsub : ∀ path ∈ natives, path ∈ more) :
    NamedAmong root more names where
  fair := h.fair
  known path name hmem := ⟨hsub path (h.known path name hmem).1, (h.known path name hmem).2⟩

theorem claimInPlace_named {natives : List Bytes} {path : Bytes} (h : NamedAmong root natives names)
    (hnot : path ∉ natives) :
    NamedAmong root (natives ++ [path]) (claimInPlace disk opts root names path) := by
  have hmore := @NamedAmong.mono names root natives (natives ++ [path]) h
    (fun p hp => List.mem_append_left _ hp)
  have hfresh : names.name.lookup path = none := by
    rw [lookup_none_iff]
    intro hmem
    obtain ⟨⟨p, n⟩, hpn, rfl⟩ := List.mem_map.mp hmem
    exact hnot (h.known p n hpn).1
  unfold claimInPlace
  dsimp only
  split
  · rename_i hclaim
    rw [Bool.and_eq_true, Option.isNone_iff_eq_none] at hclaim
    exact hmore.give hfresh hclaim.1 (by simp) (Or.inl rfl)
  · exact hmore

/-- Pass 1. -/
theorem claimsInPlace_named {done rest : List Bytes} (h : NamedAmong root done names)
    (hnodup : (done ++ rest).Nodup) :
    NamedAmong root (done ++ rest) (rest.foldl (claimInPlace disk opts root) names) := by
  induction rest generalizing done names with
  | nil => simpa using h
  | cons path rest ih =>
      have hnot : path ∉ done := by
        intro hmem
        exact (List.nodup_append.mp hnodup).2.2 path hmem path (by simp) rfl
      have hnext := @claimInPlace_named names disk opts root done path h hnot
      have hsplit : done ++ path :: rest = (done ++ [path]) ++ rest := by simp
      rw [hsplit] at hnodup ⊢
      exact ih hnext hnodup

theorem claimName_named {natives : List Bytes} {names names' : SidecarNames} {path : Bytes}
    (h : NamedAmong root natives names) (hmem : path ∈ natives)
    (hclaim : claimName root names path = .ok names') :
    NamedAmong root natives names' ∧ (∃ name, (path, name) ∈ names'.name) ∧
      names.name <+: names'.name := by
  unfold claimName at hclaim
  by_cases hnamed : (names.name.lookup path).isSome = true
  · rw [if_pos hnamed] at hclaim
    cases hclaim
    obtain ⟨name, hname⟩ := Option.isSome_iff_exists.mp hnamed
    exact ⟨h, ⟨name, mem_of_lookup hname⟩, List.prefix_rfl⟩
  · rw [if_neg hnamed] at hclaim
    rw [Bool.not_eq_true, Option.isSome_eq_false_iff, Option.isNone_iff_eq_none] at hnamed
    dsimp only at hclaim
    cases howner : names.owner.lookup (filename path) with
    | none =>
        rw [howner] at hclaim
        cases hclaim
        exact ⟨h.give hnamed howner hmem (Or.inl rfl), ⟨filename path, by simp [SidecarNames.give]⟩,
          List.prefix_append _ _⟩
    | some owner =>
        rw [howner] at hclaim
        dsimp only at hclaim
        cases hsecond :
            names.owner.lookup (disambiguated (filename path) (identityOf root path)) with
        | some second =>
            rw [hsecond] at hclaim
            cases hclaim
        | none =>
            rw [hsecond] at hclaim
            cases hclaim
            refine ⟨h.give hnamed hsecond hmem (Or.inr rfl), ?_, List.prefix_append _ _⟩
            exact ⟨disambiguated (filename path) (identityOf root path), by simp [SidecarNames.give]⟩

/-- Pass 2. -/
theorem claimNames_named {natives rest : List Bytes} {names names' : SidecarNames}
    (h : NamedAmong root natives names) (hsub : ∀ path ∈ rest, path ∈ natives)
    (hclaim : rest.foldlM (claimName root) names = .ok names') :
    NamedAmong root natives names' ∧ (∀ path ∈ rest, ∃ name, (path, name) ∈ names'.name) ∧
      names.name <+: names'.name := by
  induction rest generalizing names with
  | nil =>
      cases hclaim
      exact ⟨h, by simp, List.prefix_rfl⟩
  | cons path rest ih =>
      rw [List.foldlM_cons] at hclaim
      obtain ⟨names₁, hfirst, hclaim⟩ := bind_eq_ok.mp hclaim
      obtain ⟨h₁, ⟨name, hname⟩, hstarts₁⟩ := claimName_named h (hsub path (by simp)) hfirst
      obtain ⟨h', hall, hstarts⟩ :=
        ih h₁ (fun p hp => hsub p (List.mem_cons_of_mem _ hp)) hclaim
      refine ⟨h', ?_, hstarts₁.trans hstarts⟩
      intro p hp
      rcases List.mem_cons.mp hp with rfl | hrest
      · exact ⟨name, hstarts.subset hname⟩
      · exact hall p hrest

/-- After both passes every addon has a name of its own. -/
theorem sidecarNames_fair {natives : List Bytes} (hnodup : natives.Nodup)
    (h : sidecarNames disk opts root natives = .ok names) :
    names.Fair ∧ ∀ path ∈ natives, ∃ name, (path, name) ∈ names.name ∧ NameFor root path name := by
  have hempty : NamedAmong root [] ({} : SidecarNames) :=
    ⟨⟨rfl, List.nodup_nil, List.nodup_nil⟩, fun _ _ hmem => by cases hmem⟩
  have hfirst := @claimsInPlace_named {} disk opts root [] natives hempty (by simpa using hnodup)
  rw [List.nil_append] at hfirst
  obtain ⟨hnamed, hall, _⟩ := claimNames_named hfirst (fun _ hp => hp) h
  refine ⟨hnamed.fair, ?_⟩
  intro path hpath
  obtain ⟨name, hname⟩ := hall path hpath
  exact ⟨name, hname, (hnamed.known path name hname).2⟩

theorem lookup_of_mem (h : names.Fair) {path name : Bytes}
    (hmem : (path, name) ∈ names.name) : names.name.lookup path = some name:= by
  cases hlookup : names.name.lookup path with
  | none => exact absurd (List.mem_map_of_mem hmem) (lookup_none_iff.mp hlookup)
  | some found =>
      have hfound := mem_of_lookup hlookup
      have heq := (List.inj_on_of_nodup_map h.once) hfound hmem rfl
      rw [(Prod.mk.inj heq).2]

/-! ### Pass 3 and the structural check -/

/-- What a list of placements is like when the build goes on. -/
structure AsPlaced (disk : Disk) (opts : Options) (root : Bytes) (natives : List (Nat × Bytes))
    (placements : List NativePlacement) : Prop where
  sources : List.Forall₂ (fun native placement =>
    placement.index = native.1 ∧ placement.path = native.2) natives placements
  named : ∀ p ∈ placements, NameFor root p.path p.sidecarName
  distinct : (placements.map (·.sidecarName)).Nodup
  dst : ∀ p ∈ placements, p.dst = pathAppend (sidecarDir opts) p.sidecarName
  inPlace : ∀ p ∈ placements,
    p.inPlace = (!disk.isSymlink (cstr p.dst) && disk.isSameFile (cstr p.path) (cstr p.dst))
  bundle : ∀ p ∈ placements, disk.isSameFile (cstr p.dst) (cstr opts.outPath) = false ∧
    lexicallyNormal p.dst ≠ lexicallyNormal opts.outPath
  apart : ∀ copy ∈ placements, copy.inPlace = false → ∀ other ∈ placements,
    other.index ≠ copy.index → disk.isSameFile (cstr copy.dst) (cstr other.path) = false

theorem placeNative_ok {index : Nat} {path : Bytes} {p : NativePlacement}
    (h : placeNative disk opts names index path = .ok p) :
    p.index = index ∧ p.path = path ∧ p.sidecarName = (names.name.lookup path).getD [] ∧
      p.dst = pathAppend (sidecarDir opts) p.sidecarName ∧
      p.inPlace = (!disk.isSymlink (cstr p.dst) && disk.isSameFile (cstr p.path) (cstr p.dst)) ∧
      disk.isSameFile (cstr p.dst) (cstr opts.outPath) = false ∧
      lexicallyNormal p.dst ≠ lexicallyNormal opts.outPath := by
  unfold placeNative at h
  dsimp only at h
  split at h
  · cases h
  · rename_i hclear
    cases h
    rw [Bool.not_eq_true, Bool.or_eq_false_iff, beq_eq_false_iff_ne] at hclear
    exact ⟨rfl, rfl, rfl, rfl, rfl, hclear.1, hclear.2⟩

theorem checkPlacements_ok {placements : List NativePlacement}
    (h : checkPlacements disk root placements = .ok ()) :
    ∀ copy ∈ placements, copy.inPlace = false → ∀ other ∈ placements,
      other.index ≠ copy.index → disk.isSameFile (cstr copy.dst) (cstr other.path) = false := by
  intro copy hcopy hwritten other hother hindex
  unfold checkPlacements at h
  dsimp only at h
  split at h
  · rename_i hnone
    have hfilter : copy ∈ placements.filter (!·.inPlace) :=
      List.mem_filter.mpr ⟨hcopy, by simp [hwritten]⟩
    have hfind := List.findSome?_eq_none_iff.mp hnone copy hfilter
    rw [Option.map_eq_none_iff, List.find?_eq_none] at hfind
    have hother' := hfind other hother
    simpa [hindex] using hother'
  · cases h

/-- What step 3b guarantees about the placements it lets through. -/
theorem placeNatives_placed {files : List PackagedFile} {placements : List NativePlacement}
    (hnodup : ((nativesOf files).map Prod.snd).Nodup)
    (h : placeNatives disk opts root files = .ok placements) :
    AsPlaced disk opts root (nativesOf files) placements := by
  have hsources := placeNatives_ok h
  obtain ⟨names, hnames, hplaced, hcheck⟩ := placeNatives_runs h
  obtain ⟨hfair, hall⟩ := sidecarNames_fair hnodup hnames
  have hone : ∀ p ∈ placements, ∃ native ∈ nativesOf files,
      placeNative disk opts names native.1 native.2 = .ok p :=
    fun p hp => mapM_ok_mem hplaced hp
  have hname : ∀ p ∈ placements, (p.path, p.sidecarName) ∈ names.name ∧
      NameFor root p.path p.sidecarName := by
    intro p hp
    obtain ⟨native, hnative, hplace⟩ := hone p hp
    obtain ⟨_, hpath, hname, _⟩ := placeNative_ok hplace
    obtain ⟨name, hmem, hfor⟩ := hall native.2 (List.mem_map_of_mem hnative)
    rw [lookup_of_mem hfair hmem] at hname
    rw [hpath, hname]
    exact ⟨hmem, hfor⟩
  refine ⟨hsources, fun p hp => (hname p hp).2, ?_, ?_, ?_, ?_, checkPlacements_ok hcheck⟩
  · have hpaths : (placements.map (·.path)).Nodup := by
      have heq : placements.map (·.path) = (nativesOf files).map Prod.snd :=
        forall₂_map_eq hsources fun _ _ hrel => hrel.2
      rw [heq]
      exact hnodup
    have hdistinct : (names.name.map Prod.snd).Nodup := hfair.owners ▸ hfair.distinct
    rw [List.nodup_map_iff_inj_on hpaths.of_map]
    intro p hp q hq hpq
    have hpair := List.inj_on_of_nodup_map hdistinct (hname p hp).1 (hname q hq).1 hpq
    exact List.inj_on_of_nodup_map hpaths hp hq (Prod.mk.inj hpair).1
  · intro p hp
    obtain ⟨native, _, hplace⟩ := hone p hp
    exact (placeNative_ok hplace).2.2.2.1
  · intro p hp
    obtain ⟨native, _, hplace⟩ := hone p hp
    exact (placeNative_ok hplace).2.2.2.2.1
  · intro p hp
    obtain ⟨native, _, hplace⟩ := hone p hp
    exact (placeNative_ok hplace).2.2.2.2.2

end

/-! ### The addons of a build -/

section

variable {disk : Disk} {tools : Toolchain} {opts : Options} {start : Start} {w : State Bytes Visited}

theorem visit_native {preloadPaths : List Bytes} {isFirst : Bool} {path : Bytes} {v : Visited}
    {next : List Bytes} (h : visit disk tools preloadPaths isFirst path = .ok (v, next))
    (hkind : v.info.kind = .kNative) : classifyFile path = .kNative := by
  by_contra hnot
  unfold visit at h
  split at h
  · contradiction
  · split at h
    · cases h
    · split at h
      · cases h
        cases hkind
      · split at h
        · split at h
          · cases h
          · split at h
            · cases h
            · cases h
              cases hkind
        · cases h
          cases hkind

/-- A file of the walk that is recorded as an addon is one by its name. -/
theorem walked_native {fuel : Nat} (h : walk disk tools start fuel = .finished w) :
    List.Forall₂ (fun path v => v.info.kind = .kNative → classifyFile path = .kNative) w.items
      w.visited := by
  obtain ⟨hreached, hall⟩ := run_finished start_ne_nil (reached_init start_nodup) h
  have hresults := hreached.results
  rw [List.take_of_length_le (Nat.le_of_eq hall)] at hresults
  exact hresults.imp fun path v hvisit => visit_native hvisit

/-- The addons of a build are different regular files, named as addons are. -/
theorem planBuild_addons {fuel : Nat} {plan : Planned}
    (h : planBuild disk tools opts fuel = some (.ok plan)) :
    ∃ root files, placeNatives disk opts root files = .ok plan.placements ∧
      ((nativesOf files).map Prod.snd).Nodup ∧
      ∀ native ∈ nativesOf files, disk.isRegularFile (cstr native.2) = true ∧
        classifyFile native.2 = .kNative := by
  unfold planBuild at h
  cases hstartOf : startOf disk opts with
  | error e =>
      rw [hstartOf] at h
      cases h
  | ok start =>
      rw [hstartOf] at h
      dsimp only at h
      cases hwalk : walk disk tools start fuel with
      | running w =>
          rw [hwalk] at h
          cases h
      | failed e =>
          rw [hwalk] at h
          cases h
      | finished w =>
          rw [hwalk] at h
          have hstart := startOf_started hstartOf
          have hwalked := walk_finished hstart hwalk
          have hplan : (placeNatives disk opts
              (commonAncestor ((allFiles disk start w).map (·.path))) (allFiles disk start w)).bind
              _ = .ok plan := Option.some.inj h
          refine ⟨commonAncestor ((allFiles disk start w).map (·.path)), allFiles disk start w,
            ?_, ?_, ?_⟩
          · cases hplace : placeNatives disk opts
              (commonAncestor ((allFiles disk start w).map (·.path))) (allFiles disk start w) with
            | error e =>
                rw [hplace] at hplan
                cases hplan
            | ok placements =>
                rw [hplace] at hplan
                simp only [bind, Except.bind] at hplan
                split at hplan
                · cases hplan
                · cases hplan
                  rfl
          · have hsub : ((nativesOf (allFiles disk start w)).map Prod.snd).Sublist
                ((allFiles disk start w).map (·.path)) := by
              have hsnd : (nativesOf (allFiles disk start w)).map Prod.snd =
                  (((allFiles disk start w).zipIdx.filter fun x => x.1.info.kind = .kNative).map
                    Prod.fst).map (·.path) := by
                unfold nativesOf
                rw [List.map_map, List.map_map]
                rfl
              rw [hsnd]
              apply List.Sublist.map
              have hfst := List.filter_sublist
                (l := (allFiles disk start w).zipIdx) (p := fun x => x.1.info.kind = .kNative)
              have hmap := hfst.map Prod.fst
              rwa [List.zipIdx_map_fst] at hmap
            rw [allFiles_paths hwalked] at hsub
            exact hsub.nodup (containerPaths_nodup hwalked)
          · rintro ⟨i, path⟩ hnative
            obtain ⟨file, hfile, hkind, rfl⟩ := mem_nativesOf.mp hnative
            rw [allFiles] at hfile
            rcases List.mem_append.mp (List.mem_of_getElem? hfile) with hwalkedFile | hinput
            · obtain ⟨j, hj⟩ := List.mem_iff_getElem?.mp hwalkedFile
              obtain ⟨path, hpath, v, hv, heq⟩ : ∃ path, w.items[j]? = some path ∧
                  ∃ v, w.visited[j]? = some v ∧ PackagedFile.mk path v.info = file := by
                rw [walkedFiles, List.getElem?_zipWith] at hj
                split at hj
                · rename_i path v hpath hv
                  exact ⟨path, hpath, v, hv, Option.some.inj hj⟩
                · cases hj
              rw [← heq] at hkind ⊢
              have hpackaged := (hwalked.members path).mp (List.mem_of_getElem? hpath)
              obtain ⟨v', hv', hnative⟩ := forall₂_getElem? (walked_native hwalk) hpath
              rw [hv, Option.some.injEq] at hv'
              exact ⟨(hpackaged.file hstart).2.1, hnative (hv' ▸ hkind)⟩
            · obtain ⟨_, _, _, text, _, hinfo⟩ := packageInputs_spec hinput
              rw [hinfo] at hkind
              cases hkind

end

end HermesNode.Build
