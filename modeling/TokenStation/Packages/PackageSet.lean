import TokenStation.Library.Grouping
import TokenStation.Library.Text

/-!
# Loading a directory of packages

Each package under the root passes its load gates on its own. The families of
the packages that load are counted by world; a family with two claims is
withheld from its claimants, unless the operator's pin names one of them by its
digest.
-/

namespace TokenStation.Packages

open Library

/-- What one entry of a directory listing shows. -/
structure DirEntry where
  fileName : List UInt8
  isDir : Bool
deriving DecidableEq

/-- The root as the file system lists it: not at all, or entry by entry, some of
them unreadable. No two entries have one name. -/
structure PackageRoot where
  listing : Option (List (Option DirEntry))
  distinct : (((listing.getD []).filterMap id).map DirEntry.fileName).Nodup

/-- The same root listed in another order. -/
def PackageRoot.Reorders (root other : PackageRoot) : Prop :=
  Option.Rel List.Perm root.listing other.listing

/-- What a package's manifest says that deciding its families needs. -/
structure ComponentManifestV1 where
  apiVersion : String
  providers : List String
deriving DecidableEq, Repr

/-- A package that passed its load gates. -/
structure LoadedPackage where
  directory : String
  manifest : ComponentManifestV1
  componentSha256 : String
deriving DecidableEq, Repr

/-- One admitted package. -/
structure AdmittedPackageV1 where
  directory : String
  componentSha256 : String
  families : List String
  manifest : ComponentManifestV1
deriving DecidableEq, Repr

/-- Why one package was refused. -/
inductive PackageRefusalV1 (ε : Type) where
  | load (error : ε)
  | everyFamilyContested
deriving DecidableEq, Repr

structure RefusedPackageV1 (ε : Type) where
  directory : String
  reason : PackageRefusalV1 ε
deriving DecidableEq, Repr

/-- A family with several claims in one world. -/
structure ContestedFamilyV1 where
  world : String
  family : String
  packages : List String
  pinned : Option String
deriving DecidableEq, Repr

/-- The outcome of loading a package directory. -/
structure PackageSetReportV1 (ε : Type) where
  admitted : List AdmittedPackageV1
  refused : List (RefusedPackageV1 ε)
  contested : List ContestedFamilyV1
deriving DecidableEq, Repr

/-- The names of the package directories, sorted. -/
def directories (root : PackageRoot) : List String :=
  (((root.listing.getD []).filterMap id).filterMap fun entry =>
    if entry.isDir then Text.fromUtf8 entry.fileName else none).mergeSort

section Claims

variable (loaded : List LoadedPackage)

/-- Who claims what, per world. -/
def claims : SortedMap (String ×ₗ String) (List Nat) :=
  loaded.zipIdx.foldl (fun claims entry =>
    entry.1.manifest.providers.foldl (fun claims family =>
      claims.push (toLex (entry.1.manifest.apiVersion, family)) entry.2) claims) .empty

/-- The families with more than one claim. -/
def contestedClaims : List ((String ×ₗ String) × List Nat) :=
  (claims loaded).entries.filter fun claim => 1 < claim.2.length

/-- A pin selects a claimant only when exactly one has its digest. -/
def pinnedOf (pins : SortedMap String String) (family : String) (claimants : List Nat) :
    Option Nat :=
  (pins.get family).bind fun digest =>
    match claimants.filter fun index =>
      (loaded[index]?.map LoadedPackage.componentSha256) = some digest with
    | [index] => some index
    | _ => none

/-- Withhold a contested family from its claimants, the pinned one apart. -/
def withhold (family : String) (pinned : Option Nat) (claimants : List Nat)
    (withheld : List (List String)) : List (List String) :=
  claimants.foldl (fun withheld index =>
    if some index ≠ pinned then withheld.modify index (· ++ [family]) else withheld) withheld

/-- The families withheld from each package. -/
def withheldOf (pins : SortedMap String String) : List (List String) :=
  (contestedClaims loaded).foldl (fun withheld claim =>
    withhold (ofLex claim.1).2 (pinnedOf loaded pins (ofLex claim.1).2 claim.2) claim.2 withheld)
    (List.replicate loaded.length [])

def directoryOf (index : Nat) : String :=
  (loaded[index]?.map LoadedPackage.directory).getD ""

def contestedFamily (pins : SortedMap String String)
    (claim : (String ×ₗ String) × List Nat) : ContestedFamilyV1 where
  world := (ofLex claim.1).1
  family := (ofLex claim.1).2
  packages := claim.2.map (directoryOf loaded)
  pinned := (pinnedOf loaded pins (ofLex claim.1).2 claim.2).map (directoryOf loaded)

end Claims

/-- The families a package keeps. -/
def familiesOf (package : LoadedPackage) (withheld : List String) : List String :=
  package.manifest.providers.filter fun family => family ∉ withheld

section Loading

variable {ε : Type} (loadOne : String → Except ε (ComponentManifestV1 × String))

/-- The packages that pass their load gates, in directory order. -/
def loadedPackages (root : PackageRoot) : List LoadedPackage :=
  (directories root).filterMap fun directory =>
    match loadOne directory with
    | .ok (manifest, digest) => some ⟨directory, manifest, digest⟩
    | .error _ => none

/-- The packages that do not. -/
def refusedLoads (root : PackageRoot) : List (RefusedPackageV1 ε) :=
  (directories root).filterMap fun directory =>
    match loadOne directory with
    | .ok _ => none
    | .error error => some ⟨directory, .load error⟩

/-- Loads every package directory directly under the root, each on its own. -/
def loadPackageSet (root : PackageRoot) (pins : SortedMap String String) :
    PackageSetReportV1 ε :=
  let loaded := loadedPackages loadOne root
  let kept := loaded.zip (withheldOf loaded pins)
  let admitted := kept.filterMap fun entry =>
    if (familiesOf entry.1 entry.2).isEmpty then none
    else some ⟨entry.1.directory, entry.1.componentSha256, familiesOf entry.1 entry.2,
      entry.1.manifest⟩
  let contestedAway := kept.filterMap fun entry =>
    if (familiesOf entry.1 entry.2).isEmpty then
      some ⟨entry.1.directory, .everyFamilyContested⟩
    else none
  let refused := refusedLoads loadOne root ++ contestedAway
  { admitted
    refused := refused.mergeSort fun left right => left.directory ≤ right.directory
    contested := (contestedClaims loaded).map (contestedFamily loaded pins) }

end Loading

end TokenStation.Packages
