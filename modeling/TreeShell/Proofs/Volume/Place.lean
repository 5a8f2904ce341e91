import TreeShell.Proofs.Text.Utf8
import TreeShell.Proofs.Volume.Write
import TreeShell.Shell.Redirect

/-! Places for files. A path names a file that is there, or a name in a directory that nothing goes by
yet. A text that is stored at one place leaves the other places as they are: the paths that named them
name them still, and what stands there keeps its content. -/
namespace TreeShell

theorem Text.infix_below_left (old new : Text) : old <:+: Text.below old new := by
  rw [Text.below]
  split
  · exact (List.prefix_append _ _).isInfix
  · exact (List.prefix_append _ _).isInfix

theorem Text.infix_below_right (old new : Text) : new <:+: Text.below old new := by
  rw [Text.below]
  split
  · exact (List.suffix_append _ _).isInfix
  · rw [← List.singleton_append, ← List.append_assoc]
    exact (List.suffix_append _ _).isInfix

/-- Having bytes is a matter of single code points, so contents with bytes may be put one below the
other. -/
theorem Text.HasBytes.below {old new : Text} (hOld : old.HasBytes) (hNew : new.HasBytes) :
    (Text.below old new).HasBytes := by
  rw [Text.below]
  split
  · exact List.forall_mem_append.mpr ⟨hOld, hNew⟩
  · exact List.forall_mem_append.mpr ⟨hOld, List.forall_mem_cons.mpr ⟨rfl, hNew⟩⟩

namespace Volume

/-- A place for a file: a file that is there, or a name that is free in a directory. -/
inductive FilePlace where
  | taken (id : InodeId)
  | free (directory : InodeId) (name : Text)
  deriving DecidableEq

/-- The inode that stands at a place. -/
def FilePlace.inode? (v : Volume) : FilePlace → Option InodeId
  | .taken id => some id
  | .free directory name => v.child? directory name

/-- The content of the file that stands at a place. -/
def FilePlace.content? (v : Volume) (place : FilePlace) : Option Text := place.inode? v >>= v.content?

/-- Whether a text can be stored at a place without a fault: there is a file already, or the text has
bytes. -/
def FilePlace.Accepts (place : FilePlace) (content : Text) : Prop :=
  match place with
  | .taken _ => True
  | .free .. => Text.HasBytes content

instance (place : FilePlace) (content : Text) : Decidable (place.Accepts content) := by
  cases place <;> unfold FilePlace.Accepts <;> infer_instance

/-- The place that a path names, if a file is there or can be created there. -/
def filePlace? (v : Volume) (path : Text) : Option FilePlace :=
  match v.resolve? path with
  | some id => if v.isFile id then some (.taken id) else none
  | none =>
    match v.placeFor path with
    | .ok (directory, name) =>
      if (v.child? directory name).isNone then some (.free directory name) else none
    | .error _ => none

/-- A path has a file to be overwritten exactly if it leads to a file. -/
theorem filePlace?_eq_taken {v : Volume} {path : Text} {id : InodeId} :
    v.filePlace? path = some (.taken id) ↔ v.lookup path = .ok id ∧ v.isFile id = true := by
  have hResolve : v.resolve? path = some id ↔ v.lookup path = .ok id := resolveFrom?_eq_some
  rw [filePlace?, ← hResolve]
  cases v.resolve? path with
  | some found =>
      by_cases hFile : v.isFile found = true
      · simp only [hFile, if_true, Option.some.injEq, FilePlace.taken.injEq]
        exact ⟨fun hSame => ⟨hSame, hSame ▸ hFile⟩, And.left⟩
      · simp only [hFile, Bool.false_eq_true, if_false, reduceCtorEq, Option.some.injEq, false_iff, not_and]
        rintro rfl
        exact hFile
  | none =>
      refine iff_of_false (fun hPlace => ?_) (fun hFound => nomatch hFound.1)
      dsimp only at hPlace
      split at hPlace
      · split at hPlace <;> cases hPlace
      · cases hPlace

/-- A path has a free place exactly if its directory can be looked up and has no child of the last
name. -/
theorem filePlace?_eq_free {v : Volume} {path name : Text} {directory : InodeId} :
    v.filePlace? path = some (.free directory name) ↔
      v.placeFor path = .ok (directory, name) ∧ v.child? directory name = none := by
  constructor
  · intro hPlace
    rw [filePlace?] at hPlace
    split at hPlace
    · split at hPlace <;> cases hPlace
    · split at hPlace
      · rename_i hFound
        split at hPlace
        · rename_i hFree
          cases hPlace
          exact ⟨hFound, Option.isNone_iff_eq_none.mp hFree⟩
        · cases hPlace
      · cases hPlace
  · rintro ⟨hPlace, hFree⟩
    rw [filePlace?, resolve?_eq_none_of_placeFor hPlace hFree, hPlace]
    exact if_pos (Option.isNone_iff_eq_none.mpr hFree)

/-- Where a path has its place depends on links and kinds only. -/
theorem SameShape.filePlace?_eq {v w : Volume} (h : SameShape v w) (path : Text) :
    w.filePlace? path = v.filePlace? path := by
  refine Option.ext fun place => ?_
  cases place with
  | taken id => rw [filePlace?_eq_taken, filePlace?_eq_taken, h.lookup_eq, h.isFile_eq]
  | free directory name =>
      simp only [filePlace?_eq_free, placeFor_eq_ok, Volume.child?, h.lookup_eq, h.isDirectory, h.entries]

/-- What storing a text at a place does to the rest: other files keep their content, and other paths
name what they named. -/
structure Stored (v w : Volume) (place : FilePlace) (id : InodeId) : Prop where
  sound : Sound w
  inode? : place.inode? w = some id
  own : place = .taken id ∨ ¬ v.Holds id
  holds : ∀ x, v.Holds x → w.Holds x
  others : ∀ x, v.Holds x → x ≠ id → w.content? x = v.content? x
  child? : ∀ directory name x, v.child? directory name = some x → w.child? directory name = some x
  places : ∀ path other, v.filePlace? path = some other → other ≠ place →
    w.filePlace? path = some other

/-- A content that is set is stored in the file that was there. -/
theorem Sound.stored_taken {v : Volume} (h : Sound v) (now : Instant) {id : InodeId} {old : Text}
    (hOld : v.content? id = some old) (content : Text) :
    Stored v (v.setContent now id content) (.taken id) id := by
  have hShape := sameShape_setContent now hOld content
  refine ⟨h.sameShape hShape, rfl, Or.inl rfl, fun x => (hShape.holds x).mpr, fun x _ hOther => ?_,
    fun d name x hChild => ?_,
    fun path other hPlace _ => ?_⟩
  · rw [content?_setContent now (holds_of_content? hOld), if_neg hOther]
  · rwa [Volume.child?, hShape.entries]
  · rwa [hShape.filePlace?_eq]

/-- A file that is added under a free name stands at this place, and every other place stays what it
was. -/
theorem Sound.stored_free {v : Volume} (h : Sound v) (now : Instant) {directory : InodeId}
    {name : Text} (hDirectory : v.isDirectory directory = true)
    (hFree : v.child? directory name = none) (content : Text) :
    Stored v (v.add now directory name (.file content)).2 (.free directory name)
      (v.add now directory name (.file content)).1 := by
  have hMade := h.forest.extended now hDirectory (child?_eq_none_iff.mp hFree)
    (show (Inode.mk name (some directory) now now (.file content)).entries = [] from rfl)
  have hMore := hMade.enlarged hDirectory
  have hGrown := hMore.grown hDirectory
  refine ⟨h.grown hMade.forest hGrown, hMade.forest.child?_eq (hMade.mem_entries hDirectory),
    Or.inr fun hHeld => Nat.lt_irrefl _ hHeld.lt, hGrown.holds, fun x hx _ => hMore.content?_eq hDirectory hx.lt,
    fun d other x hChild => ?_, fun path other hPlace hNe => ?_⟩
  · exact hMade.forest.child?_eq (hGrown.entries d (mem_entries_of_child? hChild))
  · cases other with
    | taken x =>
        obtain ⟨hFound, hFile⟩ := filePlace?_eq_taken.mp hPlace
        refine filePlace?_eq_taken.mpr ⟨h.lookup_grown hMade.forest hGrown hFound, ?_⟩
        rwa [isFile, hMore.content?_eq hDirectory (h.holds_lookup hFound).lt]
    | free d other =>
        obtain ⟨hFound, hOtherFree⟩ := filePlace?_eq_free.mp hPlace
        obtain ⟨front, hParse, hName, hFront, hKind⟩ := placeFor_eq_ok.mp hFound
        refine filePlace?_eq_free.mpr ⟨placeFor_eq_ok.mpr ⟨front, hParse, hName,
          h.lookup_grown hMade.forest hGrown hFront, hGrown.isDirectory d hKind⟩, ?_⟩
        rw [child?_eq_none_iff] at hOtherFree ⊢
        rw [hMade.entries hDirectory (holds_of_isDirectory hKind).lt, List.map_append, List.mem_append]
        rintro (hListed | hNew)
        · exact hOtherFree hListed
        · split at hNew
          · rename_i hSame
            obtain rfl : other = name := by simpa using hNew
            exact hNe (by rw [hSame])
          · cases hNew

/-- What storing a text answers: the size of a new file is asked for when it is there. -/
def FilePlace.answer (place : FilePlace) (content : Text) (id : InodeId) : Except Fault InodeId :=
  match place with
  | .taken _ => .ok id
  | .free .. => content.measure.map fun _ => id

theorem FilePlace.answer_of_accepts {place : FilePlace} {content : Text}
    (h : place.Accepts content) (id : InodeId) : place.answer content id = .ok id := by
  cases place with
  | taken => rfl
  | free => rw [answer, Text.measure_of_hasBytes h]; rfl

theorem FilePlace.exists_answer_eq_error {place : FilePlace} {content : Text}
    (h : ¬ place.Accepts content) (id : InodeId) :
    ∃ fault, content.measure = .error fault ∧ place.answer content id = .error fault := by
  cases place with
  | taken => exact absurd trivial h
  | free =>
      obtain ⟨position, run, hFault⟩ := Text.exists_measure_eq_error h
      exact ⟨_, hFault, by rw [answer, hFault]; rfl⟩

/-- A text can be stored wherever a path names a place, and then it is a part of what stands there,
also when it has no bytes. -/
theorem Sound.exists_stored {v : Volume} (h : Sound v) (now : Instant) {path : Text}
    {place : FilePlace} (hPlace : v.filePlace? path = some place) (content : Text) (append : Bool) :
    ∃ w id whole, v.store now path content append = (place.answer content id, w) ∧ Stored v w place id ∧
      w.content? id = some whole ∧ content <:+: whole := by
  cases place with
  | taken id =>
      obtain ⟨hFound, hFile⟩ := filePlace?_eq_taken.mp hPlace
      obtain ⟨old, hOld⟩ := Option.isSome_iff_exists.mp hFile
      have hResolved : v.resolve? path = some id := resolveFrom?_eq_some.mpr hFound
      let whole := if append then Text.below old content else content
      refine ⟨v.setContent now id whole, id, whole, ?_, h.stored_taken now hOld whole, ?_, ?_⟩
      · simp only [store, hResolved, hOld, whole, FilePlace.answer]
      · rw [content?_setContent now (holds_of_content? hOld), if_pos rfl]
      · simp only [whole]
        split
        · exact Text.infix_below_right old content
        · exact List.infix_refl _
  | free directory name =>
      obtain ⟨hFound, hFree⟩ := filePlace?_eq_free.mp hPlace
      have hDirectory := isDirectory_of_placeFor hFound
      refine ⟨_, _, content, ?_, h.stored_free now hDirectory hFree content,
        content?_add now (holds_of_isDirectory hDirectory) name content, List.infix_refl _⟩
      have hCreated : v.create now path (.file content) = .ok (v.add now directory name (.file content)) := by
        simp only [Volume.create, hFound, ok_bind, hFree]
        rfl
      rw [store, resolve?_eq_none_of_placeFor hFound hFree]
      dsimp only
      rw [Volume.createFile, hCreated]
      rfl

end Volume

end TreeShell
