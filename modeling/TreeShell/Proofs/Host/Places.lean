import TreeShell.Proofs.Host.Export
import TreeShell.Proofs.Text.Order
import TreeShell.Proofs.Volume.Contents

/-! What stands below a place of the host, and what putting one more node there does. Listed in order, a
directory comes before what is in it, since a place begins with the place of the directory around it. -/
namespace TreeShell

instance : Std.TransCmp Text.compare where
  eq_swap := Text.compare_swap _ _
  isLE_trans := Text.le_trans

theorem HostPath.deeper_nil (p : HostPath) : p.deeper [] = p := by
  rw [deeper, List.append_nil]

theorem HostPath.deeper_deeper (p : HostPath) (names more : List Text) :
    (p.deeper names).deeper more = p.deeper (names ++ more) := by
  rw [deeper, deeper, deeper, List.append_assoc]

namespace Host

open Volume

/-! ## The order of places -/

/-- Places are compared name by name, as in the lexicographic order. -/
theorem comparePlaces_eq : comparePlaces = List.compareLex Text.compare := by
  funext first second
  induction first generalizing second with
  | nil => cases second <;> rfl
  | cons name first ih =>
      cases second with
      | nil => rfl
      | cons other second => rw [comparePlaces, List.compareLex_cons_cons, ih]

instance : Std.TransCmp comparePlaces := comparePlaces_eq ▸ inferInstance

/-- A place comes behind the directory around it. -/
theorem comparePlaces_append (around : List Text) (name : Text) :
    comparePlaces (around ++ [name]) around = .gt := by
  induction around with
  | nil => rfl
  | cons other around ih =>
      rw [List.cons_append, comparePlaces, Text.compare_self, ih]
      rfl

/-- At most as large as another place. -/
def atMost {α : Type} (first second : List Text × α) : Bool := (comparePlaces first.1 second.1).isLE

theorem pairwise_mergeSort_atMost {α : Type} (entries : List (List Text × α)) :
    (entries.mergeSort atMost).Pairwise (atMost · · = true) := by
  refine List.pairwise_mergeSort (fun _ _ _ => Std.TransCmp.isLE_trans) (fun first second => ?_) entries
  have hSwap : comparePlaces second.1 first.1 = (comparePlaces first.1 second.1).swap :=
    Std.OrientedCmp.eq_swap
  rw [atMost, atMost, hSwap]
  cases comparePlaces first.1 second.1 <;> rfl

/-- A list that describes a tree still does so when it is put in order. -/
theorem arranged_mergeSort {found : List (List Text × Option Text)} (h : Arranged found) :
    Arranged (found.mergeSort atMost) := by
  have hPerm := List.mergeSort_perm found atMost
  refine ⟨fun entry hEntry => h.childNames entry (hPerm.mem_iff.mp hEntry),
    (hPerm.map Prod.fst).nodup_iff.mpr h.nodup,
    fun entry hEntry => (h.parents entry (hPerm.mem_iff.mp hEntry)).imp_right hPerm.mem_iff.mpr, ?_⟩
  refine (pairwise_mergeSort_atMost found).imp_of_mem fun {entry other} hEntry _ hOrder hParent => ?_
  have hSome := (h.childNames entry (hPerm.mem_iff.mp hEntry)).1
  obtain ⟨around, name, hSplit⟩ := (List.eq_nil_or_concat' entry.1).resolve_left hSome
  rw [atMost, hParent, hSplit, List.dropLast_concat, comparePlaces_append] at hOrder
  cases hOrder

/-! ## What stands below a place -/

/-- Everything below a place, by the names from there. -/
def standing (h : Host) (place : List Text) : List (List Text × HostNode) :=
  h.nodes.filterMap fun (at', node) =>
    if place.isPrefixOf at' && at'.length > place.length then some (at'.drop place.length, node) else none

theorem below_eq (h : Host) (place : List Text) : h.below place = (h.standing place).mergeSort atMost := rfl

/-- What stands at a place is listed with the names that lead there from the place. -/
theorem mem_standing {h : Host} {place names : List Text} {node : HostNode} :
    (names, node) ∈ h.standing place ↔ names ≠ [] ∧ (place ++ names, node) ∈ h.nodes := by
  rw [standing, List.mem_filterMap]
  constructor
  · rintro ⟨⟨at', found⟩, hMem, hSame⟩
    simp only [Option.ite_none_right_eq_some, Bool.and_eq_true, List.isPrefixOf_iff_prefix,
      decide_eq_true_eq] at hSame
    obtain ⟨⟨⟨rest, rfl⟩, hLonger⟩, hSame⟩ := hSame
    rw [List.drop_left] at hSame
    obtain ⟨rfl, rfl⟩ := Prod.mk.inj (Option.some.inj hSame)
    rw [List.length_append] at hLonger
    exact ⟨List.ne_nil_of_length_pos (by omega), hMem⟩
  · rintro ⟨hSome, hMem⟩
    have hPos := List.length_pos_iff.mpr hSome
    exact ⟨_, hMem, by simp [hPos]⟩

/-- A place that is not listed below another one is free. -/
theorem node?_eq_none {h : Host} {place names : List Text} (hSome : names ≠ [])
    (hFresh : names ∉ (h.standing place).map Prod.fst) : h.node? (place ++ names) = none := by
  rw [node?, List.lookup_eq_none_iff]
  intro entry hEntry
  rw [bne_iff_ne]
  intro hSame
  have hMem : (names, entry.2) ∈ h.standing place :=
    mem_standing.mpr ⟨hSome, by rw [hSame]; exact hEntry⟩
  exact hFresh (List.mem_map_of_mem hMem)

/-- What is put where nothing stands comes last. -/
theorem standing_put {h : Host} {place names : List Text} (hSome : names ≠ [])
    (hFresh : names ∉ (h.standing place).map Prod.fst) (node : HostNode) :
    (h.put (place ++ names) node).standing place = h.standing place ++ [(names, node)] := by
  have hPos := List.length_pos_iff.mpr hSome
  have hKept : h.nodes.filter (·.1 != place ++ names) = h.nodes := by
    refine List.filter_eq_self.mpr fun entry hEntry => ?_
    have hFree := List.lookup_eq_none_iff.mp (node?_eq_none hSome hFresh) entry hEntry
    rw [bne_iff_ne]
    exact fun hSame => by simp [hSame] at hFree
  rw [put, hKept, standing, List.filterMap_append]
  simp [standing, hPos]

/-! ## Directories that stand -/

section Stands

variable {h : Host} {p : HostPath} {base : List Text} (hStands : Stands h p base)
include hStands

/-- Writing to a free place moves nothing that stands. -/
theorem Stands.put {place : List Text} (hFree : h.node? place = none) (node : HostNode) :
    Stands (h.put place node) p base := by
  have hVacant : h.node? place ≠ some .directory := by
    rw [hFree]
    exact nofun
  have hKept := kept_put hVacant node
  exact ⟨locate_of_kept hKept hStands.located, hKept base hStands.directory⟩

/-- The place of a name in a directory that stands. -/
theorem Stands.locate_child {name : Text} (hName : name ≠ Path.up) :
    h.locate (p.deeper [name]) = .ok (base ++ [name]) := by
  have hBase : p.parts.foldlM h.follow (startOf p) = .ok base := hStands.located
  have hStep : h.follow base name = .ok (base ++ [name]) :=
    follow_eq_ok.mpr ⟨hStands.directory, by rw [if_neg hName]⟩
  change (p.parts ++ [name]).foldlM h.follow (startOf p) = _
  rw [List.foldlM_append, hBase]
  exact bind_eq_ok.mpr ⟨base, rfl, bind_eq_ok.mpr ⟨_, hStep, rfl⟩⟩

/-- A directory that stands is not made again. -/
theorem Stands.run_ensureDirectories : (ensureDirectories p).run.run h = (.ok (), h) := by
  have hParts : (⟨p.lead, p.parts.reverse.reverse⟩ : HostPath) = p := by rw [List.reverse_reverse]
  have hMake : (makeDirectory p).run.run h = (.error (.host .exists (Text.quoted p.render)), h) := by
    rw [run_makeDirectory, hStands.located]
    dsimp only
    rw [hStands.directory]
    rfl
  have hEnsure : (ensureDirectory p).run.run h = (.ok (), h) := by
    rw [run_ensureDirectory, hMake]
    dsimp only
    rw [if_pos (isDirectory_iff.mpr ⟨base, hStands⟩)]
  rw [Host.ensureDirectories]
  rcases run_ensureFrom p.lead p.parts.reverse h with hRun | ⟨_, _, _, hMissing, _⟩
  · rw [hRun, hParts, hEnsure]
  · rw [hParts, hStands.located] at hMissing
    cases hMissing

variable {name : Text} (hName : name ≠ Path.up) (hFree : h.node? (base ++ [name]) = none)
include hName hFree

/-- A directory is made in one that stands. -/
theorem Stands.run_ensureDirectories_child : (ensureDirectories (p.deeper [name])).run.run h =
    (.ok (), h.put (base ++ [name]) .directory) := by
  have hPlace := hStands.locate_child hName
  have hParts : (⟨(p.deeper [name]).lead, (p.deeper [name]).parts.reverse.reverse⟩ : HostPath) =
      p.deeper [name] := by rw [List.reverse_reverse]
  have hMake : (makeDirectory (p.deeper [name])).run.run h =
      (.ok (), h.put (base ++ [name]) .directory) := by
    rw [run_makeDirectory, hPlace]
    dsimp only
    rw [hFree]
    rfl
  rw [Host.ensureDirectories]
  rcases run_ensureFrom (p.deeper [name]).lead (p.deeper [name]).parts.reverse h with
    hRun | ⟨_, _, _, hMissing, _⟩
  · rw [hRun, hParts, run_ensureDirectory, hMake]
  · rw [hParts, hPlace] at hMissing
    cases hMissing

/-- A file is written in a directory that stands. One without bytes is left empty. -/
theorem Stands.run_writeFile_child (content : Text) : (writeFile (p.deeper [name]) content).run.run h =
    match content.measure with
    | .error fault => (.error fault, h.put (base ++ [name]) (.file []))
    | .ok _ => (.ok (), h.put (base ++ [name]) (.file (Text.encode content))) := by
  rw [run_writeFile, hStands.locate_child hName]
  dsimp only
  rw [hFree]
  rfl

end Stands

end Host

end TreeShell
