import TokenStation.Packages.PackageSet

/-!
# Who serves a family

In each world a family is served by one package at most. A package serves a
family when it lists it once and either nobody else claims it or the pin is its
digest alone; listing a family twice is taken for a rival claim.
-/

namespace TokenStation.Packages

open Library Library.SortedMap

/-! ## The directory order -/

/-- The listing's order does not reach the sorted names. -/
theorem directories_reorders {root other : PackageRoot} (h : root.Reorders other) :
    directories other = directories root := by
  have hperm : (other.listing.getD []).Perm (root.listing.getD []) := by
    unfold PackageRoot.Reorders at h
    generalize root.listing = listing at h ⊢
    generalize other.listing = otherListing at h ⊢
    cases h with
    | none => exact .nil
    | some h => exact h.symm
  have hnames := ((hperm.filterMap id).filterMap fun entry : DirEntry =>
    if entry.isDir then Text.fromUtf8 entry.fileName else none)
  unfold directories
  refine @List.Perm.eq_of_pairwise _ (fun a b => a ≤ b) _ _ ?_ ?_ ?_ ?_
  · exact fun a b _ _ hab hba => le_antisymm hab hba
  · exact List.pairwise_mergeSort' _ _
  · exact List.pairwise_mergeSort' _ _
  · exact ((List.mergeSort_perm _ _).trans hnames).trans (List.mergeSort_perm _ _).symm

theorem nodup_directories (root : PackageRoot) : (directories root).Nodup := by
  unfold directories
  rw [(List.mergeSort_perm _ _).nodup_iff]
  refine List.pairwise_filterMap.mpr ?_
  refine (List.pairwise_map.mp root.distinct).imp ?_
  intro entry later hne name hname name' hname' heq
  subst heq
  split at hname
  · split at hname'
    · exact hne ((Text.bytes_of_fromUtf8 hname).symm.trans (Text.bytes_of_fromUtf8 hname'))
    · cases hname'
  · cases hname

section Loading

variable {ε : Type} {loadOne : String → Except ε (ComponentManifestV1 × String)}
  {root : PackageRoot}

theorem mem_loadedPackages {package : LoadedPackage} :
    package ∈ loadedPackages loadOne root ↔ package.directory ∈ directories root ∧
      loadOne package.directory = .ok (package.manifest, package.componentSha256) := by
  unfold loadedPackages
  rw [List.mem_filterMap]
  constructor
  · rintro ⟨directory, hmem, hload⟩
    split at hload
    · rename_i manifest digest hok
      cases hload
      exact ⟨hmem, hok⟩
    · cases hload
  · rintro ⟨hmem, hok⟩
    exact ⟨package.directory, hmem, by rw [hok]⟩

theorem nodup_loadedPackages :
    ((loadedPackages loadOne root).map LoadedPackage.directory).Nodup := by
  refine List.pairwise_map.mpr (List.pairwise_filterMap.mpr ((nodup_directories root).imp ?_))
  intro directory later hne package hpackage package' hpackage' heq
  split at hpackage
  · split at hpackage'
    · cases hpackage
      cases hpackage'
      exact hne heq
    · cases hpackage'
  · cases hpackage

end Loading

/-! ## Claims -/

section Claims

variable {loaded : List LoadedPackage} {world family : String}

/-- Every claim, in the order the claims are made. -/
def claimPairs (loaded : List LoadedPackage) (start : Nat) : List ((String ×ₗ String) × Nat) :=
  (loaded.zipIdx start).flatMap fun entry =>
    entry.1.manifest.providers.map fun family =>
      (toLex (entry.1.manifest.apiVersion, family), entry.2)

/-- The indices of a family's claimants, once for each time they list it. -/
def claimants (loaded : List LoadedPackage) (world family : String) : List Nat :=
  valuesAt (toLex (world, family)) (claimPairs loaded 0)

theorem claims_eq (loaded : List LoadedPackage) :
    claims loaded = empty.pushAll (claimPairs loaded 0) := by
  unfold claims pushAll claimPairs
  rw [List.foldl_flatMap]
  simp only [List.foldl_map]

theorem mem_claimPairs {start : Nat} {world family : String} {index : Nat} :
    (toLex (world, family), index) ∈ claimPairs loaded start ↔
      ∃ package, (package, index) ∈ loaded.zipIdx start ∧
        package.manifest.apiVersion = world ∧ family ∈ package.manifest.providers := by
  simp only [claimPairs, List.mem_flatMap, List.mem_map, Prod.mk.injEq, toLex_inj, Prod.exists]
  constructor
  · rintro ⟨package, i, hmem, name, hname, ⟨hworld, rfl⟩, rfl⟩
    exact ⟨package, hmem, hworld, hname⟩
  · rintro ⟨package, hmem, hworld, hname⟩
    exact ⟨package, index, hmem, family, hname, ⟨hworld, rfl⟩, rfl⟩

theorem mem_claimants {index : Nat} :
    index ∈ claimants loaded world family ↔
      ∃ package, loaded[index]? = some package ∧
        package.manifest.apiVersion = world ∧ family ∈ package.manifest.providers := by
  rw [claimants, mem_valuesAt, mem_claimPairs]
  simp only [List.mk_mem_zipIdx_iff_getElem?]

/-- One package claims a family as often as it lists it. -/
theorem valuesAt_providers (version world family : String) (providers : List String)
    (index : Nat) :
    valuesAt (toLex (world, family))
        (providers.map fun family => (toLex (version, family), index)) =
      if version = world then List.replicate (providers.count family) index else [] := by
  induction providers with
  | nil => simp [valuesAt]
  | cons provider providers ih =>
      rw [List.map_cons, valuesAt, List.filter_cons]
      change List.map _ _ = _ at ih
      by_cases hworld : version = world
      · by_cases hfamily : provider = family
        · simp_all [List.replicate_succ]
        · simp_all
      · simp_all

theorem count_valuesAt (start i : Nat) :
    (valuesAt (toLex (world, family)) (claimPairs loaded start)).count (start + i) =
      match loaded[i]? with
      | some package =>
          if package.manifest.apiVersion = world then package.manifest.providers.count family
          else 0
      | none => 0 := by
  have happend (pairs more : List ((String ×ₗ String) × Nat)) :
      valuesAt (toLex (world, family)) (pairs ++ more) =
        valuesAt (toLex (world, family)) pairs ++ valuesAt (toLex (world, family)) more := by
    simp [valuesAt]
  induction loaded generalizing start i with
  | nil => rfl
  | cons package loaded ih =>
      have hcons : claimPairs (package :: loaded) start =
          package.manifest.providers.map (fun family =>
            (toLex (package.manifest.apiVersion, family), start)) ++
          claimPairs loaded (start + 1) := rfl
      rw [hcons, happend, valuesAt_providers, List.count_append]
      cases i with
      | zero =>
          have hlater : (valuesAt (toLex (world, family)) (claimPairs loaded (start + 1))).count
              (start + 0) = 0 := by
            refine List.count_eq_zero.mpr fun hmem => ?_
            obtain ⟨other, hother, -⟩ := mem_claimPairs.mp (mem_valuesAt.mp hmem)
            have := List.le_snd_of_mem_zipIdx hother
            dsimp only at this
            omega
          rw [hlater, Nat.add_zero, Nat.add_zero, List.getElem?_cons_zero]
          dsimp only
          split
          · rw [List.count_replicate_self]
          · rfl
      | succ i =>
          have hfirst : (if package.manifest.apiVersion = world then
              List.replicate (package.manifest.providers.count family) start else []).count
                (start + (i + 1)) = 0 := by
            refine List.count_eq_zero.mpr fun hmem => ?_
            split at hmem
            · have := List.eq_of_mem_replicate hmem
              omega
            · cases hmem
          rw [hfirst, Nat.zero_add, List.getElem?_cons_succ, ← ih (start + 1) i]
          congr 1
          omega

/-- A package is among the claimants as often as it lists the family. -/
theorem count_claimants {index : Nat} {package : LoadedPackage}
    (h : loaded[index]? = some package) :
    (claimants loaded package.manifest.apiVersion family).count index =
      package.manifest.providers.count family := by
  have hcount := @count_valuesAt loaded package.manifest.apiVersion family 0 index
  rw [Nat.zero_add, h] at hcount
  simpa [claimants] using hcount

/-- The contested families, with their claimants. -/
theorem mem_contestedClaims {claim : (String ×ₗ String) × List Nat} :
    claim ∈ contestedClaims loaded ↔
      claim.2 = claimants loaded (ofLex claim.1).1 (ofLex claim.1).2 ∧ 1 < claim.2.length := by
  unfold contestedClaims
  rw [List.mem_filter, decide_eq_true_eq, mem_entries_iff, claims_eq, get_pushAll_empty]
  constructor
  · rintro ⟨⟨hvalues, -⟩, hlength⟩
    exact ⟨hvalues, hlength⟩
  · rintro ⟨hvalues, hlength⟩
    refine ⟨⟨hvalues, ?_⟩, hlength⟩
    rintro hnil
    rw [hnil] at hlength
    cases hlength

end Claims

/-! ## What is withheld -/

theorem length_withhold (family : String) (pinned : Option Nat) (claimants : List Nat)
    (withheld : List (List String)) :
    (withhold family pinned claimants withheld).length = withheld.length := by
  induction claimants generalizing withheld with
  | nil => rfl
  | cons index claimants ih =>
      refine (ih _).trans ?_
      dsimp only
      split
      · exact List.length_modify _ _ _
      · rfl

/-- A claim is withheld from its claimants and from nobody else. -/
theorem mem_withhold {family name : String} {pinned : Option Nat} {claimants : List Nat}
    {withheld : List (List String)} {i : Nat} :
    name ∈ (withhold family pinned claimants withheld)[i]?.getD [] ↔
      name ∈ withheld[i]?.getD [] ∨
        (i < withheld.length ∧ name = family ∧ i ∈ claimants ∧ some i ≠ pinned) := by
  induction claimants generalizing withheld with
  | nil => simp [withhold]
  | cons index claimants ih =>
      unfold withhold at ih ⊢
      rw [List.foldl_cons, ih]
      split
      · rename_i hne
        rw [List.length_modify, List.getElem?_modify]
        by_cases hindex : index = i
        · subst hindex
          by_cases hlt : index < withheld.length
          · simp only [List.getElem?_eq_getElem hlt]
            rw [Option.map_eq_map, Option.map_some, Option.getD_some, Option.getD_some,
              if_pos trivial, List.mem_append, List.mem_singleton]
            have hlisted : index ∈ index :: claimants := List.mem_cons_self
            tauto
          · simp [hlt]
        · have hother : i ≠ index := Ne.symm hindex
          simp [hindex, hother]
      · rename_i heq
        have hpinned : some index = pinned := not_not.mp heq
        subst hpinned
        by_cases hindex : i = index
        · simp [hindex]
        · simp [hindex]

section Withheld

variable {loaded : List LoadedPackage} {pins : SortedMap String String}

theorem foldl_withhold (claims : List ((String ×ₗ String) × List Nat))
    (withheld : List (List String)) (i : Nat) (name : String) :
    ((claims.foldl (fun withheld claim => withhold (ofLex claim.1).2
      (pinnedOf loaded pins (ofLex claim.1).2 claim.2) claim.2 withheld) withheld).length =
        withheld.length) ∧
    (name ∈ (claims.foldl (fun withheld claim => withhold (ofLex claim.1).2
      (pinnedOf loaded pins (ofLex claim.1).2 claim.2) claim.2 withheld) withheld)[i]?.getD [] ↔
      name ∈ withheld[i]?.getD [] ∨ (i < withheld.length ∧ ∃ claim ∈ claims,
        name = (ofLex claim.1).2 ∧ i ∈ claim.2 ∧
          some i ≠ pinnedOf loaded pins (ofLex claim.1).2 claim.2)) := by
  induction claims generalizing withheld with
  | nil => simp
  | cons claim claims ih =>
      obtain ⟨hlength, hmem⟩ := ih (withhold (ofLex claim.1).2
        (pinnedOf loaded pins (ofLex claim.1).2 claim.2) claim.2 withheld)
      refine ⟨hlength.trans (length_withhold _ _ _ _), hmem.trans ?_⟩
      rw [mem_withhold, length_withhold, List.exists_mem_cons_iff, or_assoc, ← and_or_left]

theorem length_withheldOf : (withheldOf loaded pins).length = loaded.length := by
  have h := (@foldl_withhold loaded pins (contestedClaims loaded)
    (List.replicate loaded.length []) 0 "").1
  rwa [List.length_replicate] at h

/-- A claimant that nothing withholds a family from: it is alone, or pinned. -/
def Keeps (loaded : List LoadedPackage) (pins : SortedMap String String)
    (world family : String) (index : Nat) : Prop :=
  claimants loaded world family = [index] ∨
    pinnedOf loaded pins family (claimants loaded world family) = some index

theorem mem_withheldOf {index : Nat} {package : LoadedPackage} {family : String}
    (h : loaded[index]? = some package) (hmem : family ∈ package.manifest.providers) :
    family ∈ (withheldOf loaded pins)[index]?.getD [] ↔
      ¬Keeps loaded pins package.manifest.apiVersion family index := by
  have hown : index ∈ claimants loaded package.manifest.apiVersion family :=
    mem_claimants.mpr ⟨package, h, rfl, hmem⟩
  have hlt : index < loaded.length := (List.getElem?_eq_some_iff.mp h).1
  have hnone : family ∉ (List.replicate loaded.length ([] : List String))[index]?.getD [] := by
    rw [List.getElem?_replicate]
    split <;> simp
  unfold withheldOf Keeps
  rw [(foldl_withhold _ _ _ _).2, ← length_le_one_iff hown, not_or, not_le, List.length_replicate]
  simp only [hnone, hlt, false_or, true_and]
  constructor
  · rintro ⟨⟨key, indices⟩, hclaim, rfl, hindex, hpinned⟩
    obtain ⟨hindices, hlength⟩ := mem_contestedClaims.mp hclaim
    dsimp only at hindices hlength hindex hpinned
    rw [hindices] at hindex
    obtain ⟨other, hother, hworld, -⟩ := mem_claimants.mp hindex
    obtain rfl : other = package := Option.some.inj (hother.symm.trans h)
    rw [hworld, ← hindices]
    exact ⟨hlength, fun heq => hpinned heq.symm⟩
  · rintro ⟨hlength, hpinned⟩
    refine ⟨(toLex (package.manifest.apiVersion, family),
      claimants loaded package.manifest.apiVersion family), ?_, rfl, hown,
      fun heq => hpinned heq.symm⟩
    exact mem_contestedClaims.mpr ⟨rfl, hlength⟩

/-- Only one claimant keeps a family. -/
theorem Keeps.unique {world family : String} {i j : Nat}
    (hi : Keeps loaded pins world family i) (hj : Keeps loaded pins world family j)
    (hmemI : i ∈ claimants loaded world family) (hmemJ : j ∈ claimants loaded world family) :
    i = j := by
  rcases hi with hi | hi
  · rw [hi] at hmemJ
    exact (List.mem_singleton.mp hmemJ).symm
  · rcases hj with hj | hj
    · rw [hj] at hmemI
      exact List.mem_singleton.mp hmemI
    · exact Option.some.inj (hi.symm.trans hj)

end Withheld

/-! ## Entitlement -/

section Entitlement

variable {loaded : List LoadedPackage} {pins : SortedMap String String}

/-- Another loaded package of the same world that declares the family. -/
structure Rival (loaded : List LoadedPackage) (package : LoadedPackage) (family : String)
    (other : LoadedPackage) : Prop where
  loads : other ∈ loaded
  differs : other.directory ≠ package.directory
  world : other.manifest.apiVersion = package.manifest.apiVersion
  declares : family ∈ other.manifest.providers

/-- A package is entitled to a family without rivals, or when the pin is its
digest and no rival's. -/
def Entitled (loaded : List LoadedPackage) (pins : SortedMap String String)
    (package : LoadedPackage) (family : String) : Prop :=
  (∀ other, ¬Rival loaded package family other) ∨
    (pins.get family = some package.componentSha256 ∧
      ∀ other, Rival loaded package family other →
        other.componentSha256 ≠ package.componentSha256)

variable {index : Nat} {package : LoadedPackage} {family : String}

theorem rival_of_claimant (hdistinct : (loaded.map LoadedPackage.directory).Nodup)
    (h : loaded[index]? = some package) {j : Nat} {other : LoadedPackage}
    (hother : loaded[j]? = some other) (hne : j ≠ index)
    (hworld : other.manifest.apiVersion = package.manifest.apiVersion)
    (hdeclares : family ∈ other.manifest.providers) : Rival loaded package family other := by
  refine ⟨List.mem_of_getElem? hother, fun hsame => hne ?_, hworld, hdeclares⟩
  have hlt : j < (loaded.map LoadedPackage.directory).length := by
    rw [List.length_map]
    exact (List.getElem?_eq_some_iff.mp hother).1
  refine (List.getElem?_inj hlt hdistinct).mp ?_
  rw [List.getElem?_map, List.getElem?_map, h, hother, Option.map_some, Option.map_some, hsame]

/-- A statement about every other claimant is one about every rival. -/
theorem forall_claimants_iff (hdistinct : (loaded.map LoadedPackage.directory).Nodup)
    (h : loaded[index]? = some package) (P : LoadedPackage → Prop) :
    (∀ j ∈ claimants loaded package.manifest.apiVersion family, ∀ other,
        loaded[j]? = some other → P other → j = index) ↔
      ∀ other, Rival loaded package family other → ¬P other := by
  constructor
  · intro hall other hrival hp
    obtain ⟨j, hj⟩ := List.mem_iff_getElem?.mp hrival.loads
    have hsame := hall j (mem_claimants.mpr ⟨other, hj, hrival.world, hrival.declares⟩) other hj hp
    rw [hsame, h] at hj
    exact hrival.differs (congrArg LoadedPackage.directory (Option.some.inj hj).symm)
  · intro hall j hj other hother hp
    by_contra hne
    obtain ⟨claimant, hclaimant, hworld, hdeclares⟩ := mem_claimants.mp hj
    obtain rfl : other = claimant := Option.some.inj (hother.symm.trans hclaimant)
    exact hall other (rival_of_claimant hdistinct h hother hne hworld hdeclares) hp

/-- A package keeps a family it is entitled to and lists once. -/
theorem keeps_iff (hdistinct : (loaded.map LoadedPackage.directory).Nodup)
    (h : loaded[index]? = some package) :
    Keeps loaded pins package.manifest.apiVersion family index ↔
      Entitled loaded pins package family ∧ package.manifest.providers.count family = 1 := by
  have hcount := @count_claimants loaded family index package h
  have halone : claimants loaded package.manifest.apiVersion family = [index] ↔
      (∀ other, ¬Rival loaded package family other) ∧
        package.manifest.providers.count family = 1 := by
    rw [eq_singleton_iff, hcount, and_comm]
    refine and_congr_left fun _ => ?_
    have hall := @forall_claimants_iff loaded index package family hdistinct h fun _ => True
    simp only [true_implies, not_true_eq_false, imp_false] at hall
    rw [← hall]
    constructor
    · exact fun hsame j hj _ _ => hsame j hj
    · intro hsame j hj
      obtain ⟨other, hother, -⟩ := mem_claimants.mp hj
      exact hsame j hj other hother
  have hpin : pinnedOf loaded pins family
      (claimants loaded package.manifest.apiVersion family) = some index ↔
      (pins.get family = some package.componentSha256 ∧ ∀ other,
        Rival loaded package family other → other.componentSha256 ≠ package.componentSha256) ∧
        package.manifest.providers.count family = 1 := by
    have hsingle (digest : String) :
        ((claimants loaded package.manifest.apiVersion family).filter fun j =>
          (loaded[j]?.map LoadedPackage.componentSha256) = some digest) = [index] ↔
          digest = package.componentSha256 ∧ (∀ other, Rival loaded package family other →
            other.componentSha256 ≠ package.componentSha256) ∧
            package.manifest.providers.count family = 1 := by
      have hall := @forall_claimants_iff loaded index package family hdistinct h
        fun other => other.componentSha256 = package.componentSha256
      rw [← hall]
      constructor
      · intro heq
        have hown : index ∈ [index] := List.mem_singleton.mpr rfl
        rw [← heq, List.mem_filter, decide_eq_true_eq, h] at hown
        obtain rfl : package.componentSha256 = digest := Option.some.inj hown.2
        refine ⟨rfl, fun j hj other hother hdigest => ?_, ?_⟩
        · have hmem : j ∈ [index] := by
            rw [← heq, List.mem_filter, decide_eq_true_eq, hother]
            exact ⟨hj, congrArg some hdigest⟩
          exact List.mem_singleton.mp hmem
        · have hone := congrArg (List.count index) heq
          rw [List.count_filter (by rw [h]; simp), hcount] at hone
          simpa using hone
      · rintro ⟨rfl, hothers, hone⟩
        rw [eq_singleton_iff, List.count_filter (by rw [h]; simp), hcount]
        refine ⟨hone, fun j hj => ?_⟩
        rw [List.mem_filter, decide_eq_true_eq] at hj
        obtain ⟨other, hother, hdigest⟩ := Option.map_eq_some_iff.mp hj.2
        exact hothers j hj.1 other hother hdigest
    unfold pinnedOf
    match hget : pins.get family with
    | none => simp
    | some digest =>
        rw [Option.bind_some, Option.some.injEq, and_assoc, ← hsingle digest]
        match (claimants loaded package.manifest.apiVersion family).filter fun j =>
            (loaded[j]?.map LoadedPackage.componentSha256) = some digest with
        | [] => simp
        | [i] => simp
        | _ :: _ :: _ => simp
  rw [Keeps, halone, hpin, ← or_and_right]
  rfl

end Entitlement

/-! ## The report -/

section Report

variable {ε : Type} {loadOne : String → Except ε (ComponentManifestV1 × String)}
  {root : PackageRoot} {pins : SortedMap String String}

/-- The families a loaded package keeps, by its place. -/
def keptFamilies (loaded : List LoadedPackage) (pins : SortedMap String String) (index : Nat)
    (package : LoadedPackage) : List String :=
  familiesOf package ((withheldOf loaded pins)[index]?.getD [])

theorem mem_keptFamilies {loaded : List LoadedPackage} {index : Nat} {package : LoadedPackage}
    (h : loaded[index]? = some package) {family : String} :
    family ∈ keptFamilies loaded pins index package ↔
      family ∈ package.manifest.providers ∧
        Keeps loaded pins package.manifest.apiVersion family index := by
  unfold keptFamilies familiesOf
  rw [List.mem_filter, decide_eq_true_eq]
  refine and_congr_right fun hmem => ?_
  rw [mem_withheldOf h hmem, not_not]

theorem mem_zip_withheld {loaded : List LoadedPackage} {entry : LoadedPackage × List String} :
    entry ∈ loaded.zip (withheldOf loaded pins) ↔ ∃ index : Nat, loaded[index]? = some entry.1 ∧
      entry.2 = (withheldOf loaded pins)[index]?.getD [] := by
  rw [List.mem_iff_getElem?]
  refine exists_congr fun index => ?_
  rw [show entry = (entry.1, entry.2) from rfl, List.getElem?_zip_eq_some]
  refine and_congr_right fun h => ?_
  have hlt : index < (withheldOf loaded pins).length := by
    rw [length_withheldOf]
    exact (List.getElem?_eq_some_iff.mp h).1
  rw [List.getElem?_eq_getElem hlt, Option.getD_some, Option.some.injEq, eq_comm]

theorem mem_admitted {entry : AdmittedPackageV1} :
    entry ∈ (loadPackageSet loadOne root pins).admitted ↔
      ∃ index package, (loadedPackages loadOne root)[index]? = some package ∧
        keptFamilies (loadedPackages loadOne root) pins index package ≠ [] ∧
        entry = ⟨package.directory, package.componentSha256,
          keptFamilies (loadedPackages loadOne root) pins index package, package.manifest⟩ := by
  unfold loadPackageSet
  dsimp only
  rw [List.mem_filterMap]
  constructor
  · rintro ⟨kept, hmem, hsome⟩
    obtain ⟨index, hindex, hwithheld⟩ := mem_zip_withheld.mp hmem
    rw [hwithheld] at hsome
    split at hsome
    · cases hsome
    · rename_i hne
      cases hsome
      exact ⟨index, kept.1, hindex, by simpa [keptFamilies] using hne, rfl⟩
  · rintro ⟨index, package, hindex, hne, rfl⟩
    refine ⟨(package, (withheldOf (loadedPackages loadOne root) pins)[index]?.getD []),
      mem_zip_withheld.mpr ⟨index, hindex, rfl⟩, ?_⟩
    exact if_neg (by simpa [keptFamilies] using hne)

theorem mem_refused {directory : String} :
    (∃ entry ∈ (loadPackageSet loadOne root pins).refused, entry.directory = directory) ↔
      (∃ error, directory ∈ directories root ∧ loadOne directory = .error error) ∨
        ∃ index package, (loadedPackages loadOne root)[index]? = some package ∧
          keptFamilies (loadedPackages loadOne root) pins index package = [] ∧
          package.directory = directory := by
  unfold loadPackageSet
  dsimp only
  simp only [List.mem_mergeSort, List.mem_append, or_and_right, exists_or]
  refine or_congr ?_ ?_
  · simp only [refusedLoads, List.mem_filterMap]
    constructor
    · rintro ⟨entry, ⟨name, hmem, hload⟩, rfl⟩
      split at hload
      · cases hload
      · rename_i error herror
        cases hload
        exact ⟨error, hmem, herror⟩
    · rintro ⟨error, hmem, herror⟩
      exact ⟨_, ⟨directory, hmem, by rw [herror]⟩, rfl⟩
  · simp only [List.mem_filterMap]
    constructor
    · rintro ⟨entry, ⟨kept, hmem, hsome⟩, rfl⟩
      obtain ⟨index, hindex, hwithheld⟩ := mem_zip_withheld.mp hmem
      rw [hwithheld] at hsome
      split at hsome
      · rename_i hnil
        cases hsome
        exact ⟨index, kept.1, hindex, by simpa [keptFamilies] using hnil, rfl⟩
      · cases hsome
    · rintro ⟨index, package, hindex, hnil, rfl⟩
      refine ⟨⟨package.directory, .everyFamilyContested⟩,
        ⟨(package, (withheldOf (loadedPackages loadOne root) pins)[index]?.getD []),
          mem_zip_withheld.mpr ⟨index, hindex, rfl⟩, ?_⟩, rfl⟩
      exact if_pos (by simpa [keptFamilies] using hnil)

/-- A loaded package is where its directory says. -/
theorem index_eq {i j : Nat} {package other : LoadedPackage}
    (hi : (loadedPackages loadOne root)[i]? = some package)
    (hj : (loadedPackages loadOne root)[j]? = some other)
    (h : package.directory = other.directory) : i = j := by
  have hlt : i < ((loadedPackages loadOne root).map LoadedPackage.directory).length := by
    rw [List.length_map]
    exact (List.getElem?_eq_some_iff.mp hi).1
  refine (List.getElem?_inj hlt nodup_loadedPackages).mp ?_
  rw [List.getElem?_map, List.getElem?_map, hi, hj, Option.map_some, Option.map_some, h]

/-- An admitted package of the directory has the family on its list. -/
def Serves (report : PackageSetReportV1 ε) (directory family : String) : Prop :=
  ∃ entry ∈ report.admitted, entry.directory = directory ∧ family ∈ entry.families

theorem serves_iff {package : LoadedPackage} (h : package ∈ loadedPackages loadOne root)
    {family : String} (hfamily : family ∈ package.manifest.providers) :
    Serves (loadPackageSet loadOne root pins) package.directory family ↔
      Entitled (loadedPackages loadOne root) pins package family ∧
        package.manifest.providers.count family = 1 := by
  obtain ⟨index, hindex⟩ := List.mem_iff_getElem?.mp h
  rw [← keeps_iff nodup_loadedPackages hindex]
  constructor
  · rintro ⟨entry, hentry, hdirectory, hmem⟩
    obtain ⟨i, other, hother, -, rfl⟩ := mem_admitted.mp hentry
    obtain rfl := index_eq hother hindex hdirectory
    obtain rfl : other = package := Option.some.inj (hother.symm.trans hindex)
    exact ((mem_keptFamilies hindex).mp hmem).2
  · intro hkeeps
    have hmem := (mem_keptFamilies hindex).mpr ⟨hfamily, hkeeps⟩
    exact ⟨_, mem_admitted.mpr ⟨index, package, hindex, List.ne_nil_of_mem hmem, rfl⟩, rfl, hmem⟩

/-- A report in which no family is served twice or by luck. -/
structure Deliberate (loadOne : String → Except ε (ComponentManifestV1 × String))
    (root : PackageRoot) (pins : SortedMap String String) : Prop where
  alone : ∀ a ∈ (loadPackageSet loadOne root pins).admitted,
    ∀ b ∈ (loadPackageSet loadOne root pins).admitted, ∀ family,
      a.manifest.apiVersion = b.manifest.apiVersion →
      family ∈ a.families → family ∈ b.families → a = b
  serves : ∀ package ∈ loadedPackages loadOne root, ∀ family ∈ package.manifest.providers,
    Serves (loadPackageSet loadOne root pins) package.directory family ↔
      Entitled (loadedPackages loadOne root) pins package family
  judged : ∀ package ∈ loadedPackages loadOne root,
    Xor (∃ entry ∈ (loadPackageSet loadOne root pins).admitted,
        entry.directory = package.directory ∧ entry.families ≠ [])
      (∃ entry ∈ (loadPackageSet loadOne root pins).refused,
        entry.directory = package.directory)
  ordered : ∀ other : PackageRoot, root.Reorders other →
    loadPackageSet loadOne other pins = loadPackageSet loadOne root pins

theorem admitted_alone {a b : AdmittedPackageV1}
    (ha : a ∈ (loadPackageSet loadOne root pins).admitted)
    (hb : b ∈ (loadPackageSet loadOne root pins).admitted) {family : String}
    (hworld : a.manifest.apiVersion = b.manifest.apiVersion) (hmemA : family ∈ a.families)
    (hmemB : family ∈ b.families) : a = b := by
  obtain ⟨i, package, hi, -, rfl⟩ := mem_admitted.mp ha
  obtain ⟨j, other, hj, -, rfl⟩ := mem_admitted.mp hb
  dsimp only at hworld hmemA hmemB
  obtain ⟨hfamily, hkeeps⟩ := (mem_keptFamilies hi).mp hmemA
  obtain ⟨hother, hkeepsOther⟩ := (mem_keptFamilies hj).mp hmemB
  rw [← hworld] at hkeepsOther
  obtain rfl : i = j := hkeeps.unique hkeepsOther (mem_claimants.mpr ⟨_, hi, rfl, hfamily⟩)
    (mem_claimants.mpr ⟨_, hj, hworld.symm, hother⟩)
  obtain rfl : package = other := Option.some.inj (hi.symm.trans hj)
  rfl

theorem loaded_judged {package : LoadedPackage} (h : package ∈ loadedPackages loadOne root) :
    Xor (∃ entry ∈ (loadPackageSet loadOne root pins).admitted,
        entry.directory = package.directory ∧ entry.families ≠ [])
      (∃ entry ∈ (loadPackageSet loadOne root pins).refused,
        entry.directory = package.directory) := by
  obtain ⟨index, hindex⟩ := List.mem_iff_getElem?.mp h
  have hadmitted : (∃ entry ∈ (loadPackageSet loadOne root pins).admitted,
      entry.directory = package.directory ∧ entry.families ≠ []) ↔
      keptFamilies (loadedPackages loadOne root) pins index package ≠ [] := by
    constructor
    · rintro ⟨entry, hentry, hdirectory, hne⟩
      obtain ⟨i, other, hother, -, rfl⟩ := mem_admitted.mp hentry
      obtain rfl := index_eq hother hindex hdirectory
      obtain rfl : other = package := Option.some.inj (hother.symm.trans hindex)
      exact hne
    · exact fun hne => ⟨_, mem_admitted.mpr ⟨index, package, hindex, hne, rfl⟩, rfl, hne⟩
  have hrefused : (∃ entry ∈ (loadPackageSet loadOne root pins).refused,
      entry.directory = package.directory) ↔
      keptFamilies (loadedPackages loadOne root) pins index package = [] := by
    rw [mem_refused]
    constructor
    · rintro (⟨error, -, herror⟩ | ⟨i, other, hother, hnil, hdirectory⟩)
      · rw [(mem_loadedPackages.mp h).2] at herror
        cases herror
      · obtain rfl := index_eq hother hindex hdirectory
        obtain rfl : other = package := Option.some.inj (hother.symm.trans hindex)
        exact hnil
    · exact fun hnil => .inr ⟨index, package, hindex, hnil, rfl⟩
  rw [xor_iff_not_iff, hadmitted, hrefused]
  tauto

theorem loadPackageSet_reorders {other : PackageRoot} (h : root.Reorders other) :
    loadPackageSet loadOne other pins = loadPackageSet loadOne root pins := by
  have hloaded : loadedPackages loadOne other = loadedPackages loadOne root := by
    unfold loadedPackages
    rw [directories_reorders h]
  have hrefused : refusedLoads loadOne other = refusedLoads loadOne root := by
    unfold refusedLoads
    rw [directories_reorders h]
  unfold loadPackageSet
  rw [hloaded, hrefused]

end Report

/-- No family is served twice or by luck exactly when no package lists twice a
family it is entitled to. -/
theorem families_served_deliberately_iff {ε : Type}
    (loadOne : String → Except ε (ComponentManifestV1 × String)) (root : PackageRoot)
    (pins : SortedMap String String) :
    Deliberate loadOne root pins ↔
      ∀ package ∈ loadedPackages loadOne root, ∀ family ∈ package.manifest.providers,
        Entitled (loadedPackages loadOne root) pins package family →
          package.manifest.providers.count family = 1 := by
  constructor
  · intro h package hpackage family hfamily hentitled
    have hserves := (h.serves package hpackage family hfamily).mpr hentitled
    exact ((serves_iff hpackage hfamily).mp hserves).2
  · intro h
    refine ⟨fun a ha b hb family => admitted_alone ha hb, fun package hpackage family hfamily => ?_,
      fun package => loaded_judged, fun other => loadPackageSet_reorders⟩
    rw [serves_iff hpackage hfamily]
    exact and_iff_left_of_imp (h package hpackage family hfamily)

/-- One package, whose manifest lists its family twice. -/
def twiceListed (directory : String) : Except Unit (ComponentManifestV1 × String) :=
  if directory = "a" then .ok (⟨"provider-adapter-v2", ["openai", "openai"]⟩, "d1") else .error ()

def oneDirectory : PackageRoot where
  listing := some [some ⟨[0x61], true⟩]
  distinct := by decide

/-- A family listed twice is withheld from the only package that declares it. -/
theorem twice_listed_family_withheld :
    (⟨"a", ⟨"provider-adapter-v2", ["openai", "openai"]⟩, "d1"⟩ : LoadedPackage) ∈
        loadedPackages twiceListed oneDirectory ∧
      ¬Deliberate twiceListed oneDirectory .empty := by
  have hdirectory : directories oneDirectory = ["a"] := by
    decide +kernel
  have hloaded : loadedPackages twiceListed oneDirectory =
      [⟨"a", ⟨"provider-adapter-v2", ["openai", "openai"]⟩, "d1"⟩] := by
    rw [loadedPackages, hdirectory]
    rfl
  rw [hloaded]
  refine ⟨List.mem_singleton.mpr rfl, fun h => ?_⟩
  have hserves := (h.serves _ (by rw [hloaded]; exact List.mem_singleton.mpr rfl) "openai"
    (by simp)).mpr ?_
  · obtain ⟨entry, hentry, -⟩ := hserves
    have hnone : (loadPackageSet twiceListed oneDirectory .empty).admitted = [] := by
      unfold loadPackageSet
      rw [hloaded]
      decide +kernel
    rw [hnone] at hentry
    cases hentry
  · refine .inl fun other hrival => hrival.differs ?_
    have hmem := hrival.loads
    rw [hloaded] at hmem
    rw [List.mem_singleton.mp hmem]

end TokenStation.Packages
