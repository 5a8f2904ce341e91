import Mathlib.Data.List.Forall2
import Mathlib.Data.List.TakeWhile
import TreeShell.Pattern.Wildcard
import TreeShell.Proofs.Text.Order
import TreeShell.Proofs.Volume.Naming

/-! The paths that a pattern stands for. Its leading parts without wildcards are followed to a
directory, and the other parts are held against the names that lead down from there, as many
of them as there are parts. What is found is written with the leading parts in front, so that
it is a path to the inode that was found. -/
namespace TreeShell

namespace Wildcard

open Volume (LeadsBy Sound ChildNamed)

def parts (pattern : Text) : List Text := (pattern.splitOn (chr '/')).filter (!·.isEmpty)

/-- The longest leading run of parts without wildcards. -/
def literalParts (pattern : Text) : List Text := (parts pattern).takeWhile (!hasGlob ·)

/-- The parts from the first one with a wildcard on. -/
def globParts (pattern : Text) : List Text := (parts pattern).dropWhile (!hasGlob ·)

/-- The directory that the parts of a pattern are followed from. -/
def origin (v : Volume) (pattern : Text) : InodeId :=
  if Path.isAbsolute pattern then Volume.root else v.cwd

/-- The leading parts of a pattern lead to a directory. -/
def Searches (v : Volume) (pattern : Text) (base : InodeId) : Prop :=
  (literalParts pattern).foldlM (v.follow pattern) (origin v pattern) = .ok base ∧
    v.isDirectory base = true

/-- What is written before the names that were found: the leading parts, each with a slash
behind it, after the slash in front of an absolute pattern. -/
def stem (pattern : Text) : Text :=
  (if Path.isAbsolute pattern then [chr '/'] else []) ++ (literalParts pattern).flatMap (· ++ [chr '/'])

/-- The rule for one part of a pattern: a name that begins with a dot needs a part that does,
and `[^` means the same as `[!`. -/
structure Suits (pattern name : Text) : Prop where
  dot : name.head? = some (chr '.') → pattern.head? = some (chr '.')
  isMatch : Glob.isMatch (pattern.replaceAfter (chr '[') (chr '^') (chr '!')) name = true

/-- Matching one part decides whether the name suits it. -/
theorem matchPart_iff {pattern name : Text} : matchPart pattern name = true ↔ Suits pattern name := by
  rw [matchPart]
  split
  · rename_i hHidden
    simp only [Bool.and_eq_true, beq_iff_eq, bne_iff_ne] at hHidden
    exact ⟨nofun, fun h => absurd (h.dot hHidden.1) hHidden.2⟩
  · rename_i hShown
    simp only [Bool.and_eq_true, beq_iff_eq, bne_iff_ne, not_and, not_not] at hShown
    exact ⟨fun h => ⟨hShown, h⟩, Suits.isMatch⟩

/-- As many parts as names, and each name suits its part. -/
theorem matchParts_iff {patterns names : List Text} :
    matchParts patterns names = true ↔ List.Forall₂ Suits patterns names := by
  induction patterns generalizing names with
  | nil => cases names <;> simp [matchParts]
  | cons pattern patterns ih =>
      cases names with
      | nil => simp [matchParts]
      | cons name names =>
          rw [matchParts, Bool.and_eq_true, matchPart_iff, ih, List.forall₂_cons]

section Parts

variable (pattern : Text)

theorem isPart {part : Text} (h : part ∈ parts pattern) : part ≠ [] ∧ chr '/' ∉ part := by
  obtain ⟨hMem, hSome⟩ := List.mem_filter.mp h
  exact ⟨by simpa using hSome, Text.not_mem_of_mem_splitOn hMem⟩

theorem isPart_of_literal {part : Text} (h : part ∈ literalParts pattern) :
    part ≠ [] ∧ chr '/' ∉ part :=
  isPart pattern ((List.takeWhile_sublist _).mem h)

theorem isPart_of_glob {part : Text} (h : part ∈ globParts pattern) : part ≠ [] ∧ chr '/' ∉ part :=
  isPart pattern ((List.dropWhile_sublist _).mem h)

/-- A wildcard in one part leaves parts to be held against names. -/
theorem globParts_ne_nil (h : ∃ part ∈ pattern.splitOn (chr '/'), hasGlob part = true) :
    globParts pattern ≠ [] := by
  obtain ⟨part, hMem, hGlob⟩ := h
  have hPart : part ∈ parts pattern := by
    refine List.mem_filter.mpr ⟨hMem, ?_⟩
    cases part with
    | nil => cases hGlob
    | cons c part => rfl
  intro hNone
  have hAll := List.dropWhile_eq_nil_iff.mp hNone part hPart
  rw [hGlob] at hAll
  cases hAll

theorem splitOn_flatMap {before : List Text} (h : ∀ part ∈ before, chr '/' ∉ part) (rest : Text) :
    Text.splitOn (chr '/') (before.flatMap (· ++ [chr '/']) ++ rest) = before ++ Text.splitOn (chr '/') rest := by
  induction before with
  | nil => rfl
  | cons part before ih =>
      obtain ⟨hPart, hBefore⟩ := List.forall_mem_cons.mp h
      rw [List.flatMap_cons, List.append_assoc, List.append_assoc, List.singleton_append,
        Text.splitOn_append hPart, ih hBefore, List.cons_append]

/-- The stem divides into the leading parts, behind an empty one if the pattern is absolute. -/
theorem splitOn_stem (rest : Text) : Text.splitOn (chr '/') (stem pattern ++ rest) =
    (if Path.isAbsolute pattern then [[]] else []) ++
      (literalParts pattern ++ Text.splitOn (chr '/') rest) := by
  have hLiteral := splitOn_flatMap (fun part hPart => (isPart_of_literal pattern hPart).2) rest
  rw [stem]
  split
  · rw [List.append_assoc, List.singleton_append, Text.splitOn, if_pos rfl, hLiteral]
    rfl
  · exact hLiteral

theorem isAbsolute_stem_append {rest : Text} (h : Path.isAbsolute rest = false) :
    Path.isAbsolute (stem pattern ++ rest) = Path.isAbsolute pattern := by
  rw [stem]
  split
  · rename_i hAbsolute
    rw [hAbsolute]
    rfl
  · rename_i hRelative
    rw [Bool.eq_false_iff.mpr hRelative]
    cases hParts : literalParts pattern with
    | nil => exact h
    | cons first others =>
        obtain ⟨hSome, hSingle⟩ := isPart_of_literal pattern (hParts ▸ List.mem_cons_self)
        obtain ⟨c, more, rfl⟩ := List.exists_cons_of_ne_nil hSome
        simpa [Path.isAbsolute] using Ne.symm (List.ne_of_not_mem_cons hSingle)

/-- The leading parts as they are looked up. -/
def literal : Text :=
  if Path.isAbsolute pattern then chr '/' :: Text.join [chr '/'] (literalParts pattern)
  else Text.join [chr '/'] (literalParts pattern)

theorem splitOn_join_literal (h : literalParts pattern ≠ []) :
    Text.splitOn (chr '/') (Text.join [chr '/'] (literalParts pattern)) = literalParts pattern := by
  have hPart (part : Text) (hMem : part ∈ literalParts pattern) : chr '/' ∉ part :=
    (isPart_of_literal pattern hMem).2
  revert h hPart
  cases literalParts pattern with
  | nil => exact fun h => absurd rfl h
  | cons first rest => exact fun _ hPart => Text.splitOn_join hPart

theorem not_isAbsolute_join_literal :
    Path.isAbsolute (Text.join [chr '/'] (literalParts pattern)) = false := by
  by_cases hSome : literalParts pattern = []
  · rw [hSome]
    rfl
  · rw [Path.isAbsolute, beq_eq_false_iff_ne]
    intro hFirst
    have hHead := Text.head?_splitOn hFirst
    rw [splitOn_join_literal pattern hSome] at hHead
    exact (isPart_of_literal pattern (List.mem_of_head? hHead)).1 rfl

theorem isAbsolute_literal : Path.isAbsolute (literal pattern) = Path.isAbsolute pattern := by
  rw [literal]
  split
  · rename_i hAbsolute
    rw [hAbsolute]
    rfl
  · rename_i hRelative
    rw [not_isAbsolute_join_literal, Bool.eq_false_iff.mpr hRelative]

theorem join_literal_ne_nil (h : literalParts pattern ≠ []) :
    Text.join [chr '/'] (literalParts pattern) ≠ [] := by
  intro hEmpty
  have hParts := splitOn_join_literal pattern h
  rw [hEmpty, Text.splitOn] at hParts
  exact (isPart_of_literal pattern (by simp [← hParts])).1 rfl

/-- Joined parts with a slash behind them are parts with a slash behind each. -/
theorem join_append_slash (first : Text) (rest : List Text) :
    Text.join [chr '/'] (first :: rest) ++ [chr '/'] = (first :: rest).flatMap (· ++ [chr '/']) := by
  induction rest generalizing first with
  | nil => simp [Text.join]
  | cons next rest ih =>
      rw [List.flatMap_cons, ← ih]
      simp [Text.join]

/-- The leading parts are looked up without a slash at their end, and written with it in front of
what was found. -/
theorem lead_literal : lead (literal pattern) = stem pattern := by
  by_cases hSome : literalParts pattern = []
  · rw [literal, stem, hSome]
    split <;> rfl
  · have hJoin := join_literal_ne_nil pattern hSome
    have hFlat : Text.join [chr '/'] (literalParts pattern) ++ [chr '/'] =
        (literalParts pattern).flatMap (· ++ [chr '/']) := by
      obtain ⟨first, rest, hParts⟩ := List.exists_cons_of_ne_nil hSome
      rw [hParts]
      exact join_append_slash first rest
    have hOther : Text.join [chr '/'] (literalParts pattern) ≠ [chr '/'] := by
      intro hSlash
      have hRelative := not_isAbsolute_join_literal pattern
      rw [hSlash] at hRelative
      cases hRelative
    rw [literal, stem, ← hFlat]
    split <;> simp [lead, hJoin, hOther]

end Parts

section Base

variable (v : Volume) (pattern : Text)

theorem follow_join_literal (path : Text) (start : InodeId) :
    (Text.splitOn (chr '/') (Text.join [chr '/'] (literalParts pattern))).foldlM (v.follow path) start =
      (literalParts pattern).foldlM (v.follow path) start := by
  by_cases hSome : literalParts pattern = []
  · rw [hSome]
    rfl
  · rw [splitOn_join_literal pattern hSome]

/-- Looking up the literal part follows the leading parts, since empty parts are passed over. -/
theorem follow_literal (path : Text) (start : InodeId) :
    (Text.splitOn (chr '/') (literal pattern)).foldlM (v.follow path) start =
      (literalParts pattern).foldlM (v.follow path) start := by
  rw [literal]
  split
  · rw [Text.splitOn, if_pos rfl, List.foldlM_cons, Volume.follow_nil, ok_bind, follow_join_literal]
  · exact follow_join_literal v pattern path start

/-- The search begins in the directory that the leading parts lead to. -/
theorem base?_eq_some (hSound : Sound v) {base : InodeId} :
    base? v none (literal pattern) = some base ↔ Searches v pattern base := by
  have hOrigin : (if Path.isAbsolute (literal pattern) then Volume.root else v.startAt v.cwd) =
      origin v pattern := by
    rw [isAbsolute_literal, Volume.startAt_of_isDirectory hSound.cwdDirectory]
    rfl
  rw [base?, Option.filter_eq_some_iff, Searches]
  refine and_congr_left fun hKind => ?_
  by_cases hEmpty : literal pattern = []
  · -- Nothing is looked up: the search begins in the current directory itself.
    have hRelative : Path.isAbsolute pattern = false := by
      rw [← isAbsolute_literal, hEmpty]
      rfl
    have hNone : literalParts pattern = [] := by
      by_contra hSome
      rw [literal, hRelative] at hEmpty
      exact join_literal_ne_nil pattern hSome hEmpty
    rw [hEmpty, hNone, origin, hRelative]
    exact ⟨fun h => congrArg Except.ok (Option.some.inj h), fun h => congrArg some (Except.ok.inj h)⟩
  · have hFile : v.isFile base = false := Volume.isFile_of_isDirectory hKind
    rw [if_neg (by simpa using hEmpty)]
    change v.resolveFrom? v.cwd (literal pattern) = some base ↔ _
    rw [Volume.resolveFrom?_eq_some, Volume.lookupFrom_eq_ok, hOrigin, follow_literal,
      Volume.followAll_eq_ok_iff (literal pattern) pattern]
    exact ⟨fun h => h.2.1, fun h => ⟨hEmpty, h, fun _ => hFile⟩⟩

end Base

section Search

variable {v : Volume} (hSound : Sound v) (hNamed : ChildNamed v) {pattern : Text} {base : InodeId}

/-- Expansion by way of the leading parts: the base is looked up once, and the walk below it is
filtered and sorted. -/
theorem expandPattern_eq (v : Volume) (h : globParts pattern ≠ []) : expandPattern v none pattern =
    match base? v none (literal pattern) with
    | none => []
    | some base =>
      (((v.walk base).filter fun (path, _) => matchPath (Text.join [chr '/'] (globParts pattern)) path).map
        fun (path, _) => lead (literal pattern) ++ path).mergeSort Text.le := by
  have hSome : (globParts pattern).isEmpty = false := by simpa using h
  rw [expandPattern]
  exact if_neg (by rw [← Bool.not_eq_true] at hSome; exact hSome)

/-- Part by part: a pattern matches a path exactly if there are as many parts as names, and each
part suits its name. -/
theorem matchPath_route {names : List Text} {path : Text} (h : globParts pattern ≠ [])
    (hRoute : Path.IsRoute names path) :
    matchPath (Text.join [chr '/'] (globParts pattern)) path = true ↔
      List.Forall₂ Suits (globParts pattern) names := by
  have hGlob : Text.splitOn (chr '/') (Text.join [chr '/'] (globParts pattern)) = globParts pattern := by
    have hPart (part : Text) (hMem : part ∈ globParts pattern) : chr '/' ∉ part :=
      (isPart_of_glob pattern hMem).2
    obtain ⟨first, rest, hParts⟩ := List.exists_cons_of_ne_nil h
    rw [hParts] at hPart ⊢
    exact Text.splitOn_join hPart
  rw [matchPath, hGlob, hRoute.splitOn_eq, matchParts_iff]

include hSound hNamed

/-- Names below the directory that is searched, behind the leading parts, are a path to what they
lead to. -/
theorem lookup_stem (hBase : Searches v pattern base) {names : List Text} {id : InodeId}
    (hSome : names ≠ []) (hNames : LeadsBy v base names id) :
    v.lookup (stem pattern ++ Text.join [chr '/'] names) = .ok id := by
  have hRoute : Path.IsRoute names (Text.join [chr '/'] names) := ⟨hSome, hNamed.of_leadsBy hNames, rfl⟩
  have hAbsolute := isAbsolute_stem_append pattern hRoute.not_isAbsolute
  have hFollow (path : Text) : (Text.splitOn (chr '/') (stem pattern ++ Text.join [chr '/'] names)).foldlM
      (v.follow path) (origin v pattern) = .ok id := by
    have hStay : (if Path.isAbsolute pattern then [[]] else []).foldlM (v.follow path)
        (origin v pattern) = .ok (origin v pattern) := by
      split <;> rfl
    have hLiteral := (Volume.followAll_eq_ok_iff pattern path).mp hBase.1
    rw [splitOn_stem, hRoute.splitOn_eq, List.foldlM_append, hStay, ok_bind, List.foldlM_append,
      hLiteral, ok_bind]
    exact hSound.forest.followAll hNames hRoute.childNames path
  rw [Volume.lookup, Volume.lookupFrom_eq_ok, hAbsolute, Volume.startAt_of_isDirectory hSound.cwdDirectory]
  refine ⟨List.append_ne_nil_of_right_ne_nil _ hRoute.path_ne_nil, hFollow _, fun hLast => ?_⟩
  rw [List.getLast?_append_of_ne_nil _ hRoute.path_ne_nil] at hLast
  exact absurd hLast hRoute.getLast?_ne

/-- Expansion finds what can be reached from the base by names that suit the parts, and spells it
with the stem of the pattern. -/
theorem mem_expandPattern (hBase : Searches v pattern base) (h : globParts pattern ≠ []) {t : Text} :
    t ∈ expandPattern v none pattern ↔ ∃ names id, LeadsBy v base names id ∧
      List.Forall₂ Suits (globParts pattern) names ∧ t = stem pattern ++ Text.join [chr '/'] names := by
  have hHeld := Volume.holds_of_isDirectory hBase.2
  rw [expandPattern_eq v h, (base?_eq_some v pattern hSound).mpr hBase]
  simp only [List.mem_mergeSort, List.mem_map, List.mem_filter, lead_literal, Prod.exists]
  constructor
  · rintro ⟨path, id, ⟨hWalk, hMatch⟩, rfl⟩
    obtain ⟨names, hRoute, hNames⟩ := (hSound.forest.mem_walk hNamed hHeld).mp hWalk
    exact ⟨names, id, hNames, (matchPath_route h hRoute).mp hMatch, by rw [hRoute.path_eq]⟩
  · rintro ⟨names, id, hNames, hSuits, rfl⟩
    have hSome : names ≠ [] := by
      rintro rfl
      exact h (List.forall₂_nil_right_iff.mp hSuits)
    have hRoute : Path.IsRoute names (Text.join [chr '/'] names) := ⟨hSome, hNamed.of_leadsBy hNames, rfl⟩
    exact ⟨_, id, ⟨(hSound.forest.mem_walk hNamed hHeld).mpr ⟨names, hRoute, hNames⟩,
      (matchPath_route h hRoute).mpr hSuits⟩, rfl⟩

/-- The paths are found in increasing order, each of them once: a walk lists no place twice. -/
theorem pairwise_expandPattern (hBase : Searches v pattern base) (h : globParts pattern ≠ []) :
    (expandPattern v none pattern).Pairwise fun s t => Text.compare s t = .lt := by
  have hPaths := hSound.forest.nodup_walk_paths hNamed (Volume.holds_of_isDirectory hBase.2)
  rw [expandPattern_eq v h, (base?_eq_some v pattern hSound).mpr hBase]
  refine Text.pairwise_lt_mergeSort (List.pairwise_map.mpr ?_)
  refine ((List.pairwise_map.mp hPaths).sublist List.filter_sublist).imp fun hNe hSame => ?_
  exact hNe (List.append_cancel_left hSame)

end Search

/-- The expansion of a pattern with a wildcard: if the leading parts lead to a directory, the
paths are in strictly increasing order, they are the ones made of names that lead down from there
and suit the other parts one by one, and each is a path to the inode that its names lead to. If
the leading parts lead to no directory, there are none. -/
theorem expandPattern_exact {v : Volume} (hSound : Sound v) (hNamed : ChildNamed v) {pattern : Text}
    (hGlob : ∃ part ∈ pattern.splitOn (chr '/'), hasGlob part = true) :
    (∀ base, Searches v pattern base →
      (expandPattern v none pattern).Pairwise (fun s t => Text.compare s t = .lt) ∧
      (∀ t, t ∈ expandPattern v none pattern ↔ ∃ names id, LeadsBy v base names id ∧
        List.Forall₂ Suits (globParts pattern) names ∧ t = stem pattern ++ Text.join [chr '/'] names) ∧
      ∀ names id, LeadsBy v base names id → List.Forall₂ Suits (globParts pattern) names →
        v.lookup (stem pattern ++ Text.join [chr '/'] names) = .ok id) ∧
    ((∀ base, ¬ Searches v pattern base) → expandPattern v none pattern = []) := by
  have hSome := globParts_ne_nil pattern hGlob
  refine ⟨fun base hBase => ⟨?_, fun t => ?_, fun names id hNames hSuits => ?_⟩, fun hNone => ?_⟩
  · exact pairwise_expandPattern hSound hNamed hBase hSome
  · exact mem_expandPattern hSound hNamed hBase hSome
  · refine lookup_stem hSound hNamed hBase ?_ hNames
    rintro rfl
    exact hSome (List.forall₂_nil_right_iff.mp hSuits)
  · rw [expandPattern_eq v hSome]
    split
    · rfl
    · rename_i base hBase
      exact absurd ((base?_eq_some v pattern hSound).mp hBase) (hNone base)

/-- A pattern that begins above the current directory. -/
theorem expandPattern_exact_above :
    let now := Instant.origin
    let v := (Volume.fresh now).after [(now, .createDirectories "/src/b"),
      (now, .writeFile "/src/b/x.py" "" false), (now, .changeDirectory "/src")]
    Searches v "../src/*/[^a].py" 1 ∧
      ("../src/b/x.py" : Text) ∈ expandPattern v none "../src/*/[^a].py" ∧
      v.lookup "../src/b/x.py" = .ok 3 := by
  intro now v
  have hAttained : Volume.Attained v := by
    refine (Volume.Attained.fresh now).after fun step hStep => ?_
    simp only [List.mem_cons, List.not_mem_nil, or_false] at hStep
    rcases hStep with rfl | rfl | rfl <;> exact nofun
  have hSound := hAttained.sound
  have hNamed := hAttained.tidy.childNamed hSound.forest
  have hFollow : ((literalParts "../src/*/[^a].py").foldlM (v.follow "../src/*/[^a].py")
      (origin v "../src/*/[^a].py")).toOption.map id = some 1 := by decide +kernel
  obtain ⟨base, hFollow, rfl⟩ := exists_ok_of_map_toOption hFollow
  have hBase : Searches v "../src/*/[^a].py" 1 := ⟨hFollow, by decide +kernel⟩
  have hInner : (("b" : Text), 2) ∈ v.entries 1 := by decide +kernel
  have hFile : (("x.py" : Text), 3) ∈ v.entries 2 := by decide +kernel
  have hNames : LeadsBy v 1 ["b", "x.py"] 3 := .down hInner (.down hFile .here)
  have hGlob : ∃ part ∈ Text.splitOn (chr '/') "../src/*/[^a].py", hasGlob part = true := by decide +kernel
  have hSuits : List.Forall₂ Suits (globParts "../src/*/[^a].py") ["b", "x.py"] :=
    matchParts_iff.mp (by decide +kernel)
  have hText : stem "../src/*/[^a].py" ++ Text.join [chr '/'] ["b", "x.py"] = ("../src/b/x.py" : Text) := by
    decide +kernel
  clear_value v
  obtain ⟨-, hMem, hLookup⟩ := (expandPattern_exact hSound hNamed hGlob).1 1 hBase
  refine ⟨hBase, (hMem _).mpr ⟨_, 3, hNames, hSuits, hText.symm⟩, ?_⟩
  rw [← hText]
  exact hLookup _ 3 hNames hSuits

end Wildcard

end TreeShell
