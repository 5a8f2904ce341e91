import TreeShell.Proofs.Shell.Session
import TreeShell.Proofs.Volume.Place

/-! Where the output and the errors of a command go. They are routed in three passes: the files for
errors in the order of the line, the errors that join the output, and the files for output, of which
the last gets the text. Each pass keeps what it is given or hands it on, so that nothing is lost when
the files are different ones. -/
namespace TreeShell

namespace Redirection

/-- The file that a redirection of errors writes to, the one for both texts among them. -/
def errorTarget? : Redirection → Option Text
  | .to .errors target | .to .errorsAppend target | .to .all target => some target
  | _ => none

/-- The file that a redirection writes to. -/
def target? : Redirection → Option Text
  | .to .output target | .to .append target | .to .errors target | .to .errorsAppend target
  | .to .all target => some target
  | .to .input _ | .to .heredoc _ | .mergeErrors => none

/-- Whether nothing of the output is left behind a redirection. -/
def takesOutput : Redirection → Bool
  | .to .output _ | .to .append _ | .to .all _ => true
  | _ => false

/-! ## What is written -/

/-- A text is a part of what is left or of something that is written. -/
def Carried (written : List Writing) (left t : Text) : Prop :=
  t <:+: left ∨ ∃ w ∈ written, t <:+: w.content

theorem Carried.cons {written : List Writing} {left t : Text} (h : Carried written left t)
    (w : Writing) : Carried (w :: written) left t := by
  rcases h with hLeft | ⟨other, hMem, hPart⟩
  · exact Or.inl hLeft
  · exact Or.inr ⟨other, List.mem_cons_of_mem _ hMem, hPart⟩

/-- What one pass leaves is carried on by the next one. -/
theorem Carried.append {first second : List Writing} {middle left whole t : Text}
    (h : Carried first middle t) (hPart : middle <:+: whole) (hRest : Carried second left whole) :
    Carried (first ++ second) left t := by
  rcases h with hMiddle | ⟨w, hMem, hContent⟩
  · rcases hRest with hLeft | ⟨w, hMem, hContent⟩
    · exact Or.inl ((hMiddle.trans hPart).trans hLeft)
    · exact Or.inr ⟨w, List.mem_append_right _ hMem, (hMiddle.trans hPart).trans hContent⟩
  · exact Or.inr ⟨w, List.mem_append_left _ hMem, hContent⟩

/-- What the pass for errors does: it carries both texts, the errors into a file if one is named for
them, and it leaves nothing when a file takes both. -/
structure ErrorsRouted (redirections : List Redirection) (output errors : Text)
    (written : List Writing) (leftOutput leftErrors : Text) : Prop where
  outputCarried : Carried written leftOutput output
  errorsCarried : Carried written leftErrors errors
  stored : redirections.filterMap errorTarget? ≠ [] → ∃ w ∈ written, errors <:+: w.content
  taken : (∃ target, .to .all target ∈ redirections) → leftOutput = [] ∧ leftErrors = []
  empty : output = [] → errors = [] → leftOutput = [] ∧ leftErrors = []
  bytes : output.HasBytes → errors.HasBytes →
    (∀ w ∈ written, w.content.HasBytes) ∧ leftOutput.HasBytes ∧ leftErrors.HasBytes
  targets : written.map Writing.target = redirections.filterMap errorTarget?

/-- A redirection of the errors writes them to its target, and hands on nothing of them. -/
theorem ErrorsRouted.file {rest : List Redirection} {output errors leftOutput leftErrors : Text}
    {written : List Writing} (h : ErrorsRouted rest output errors written leftOutput leftErrors)
    {r : Redirection} {target : Text} (append : Bool) (hTarget : r.errorTarget? = some target)
    (hAll : ∀ other, r ≠ .to .all other) :
    ErrorsRouted (r :: rest) output errors (⟨target, errors, append⟩ :: written) leftOutput
      leftErrors where
  outputCarried := h.outputCarried.cons _
  errorsCarried := h.errorsCarried.cons _
  stored _ := ⟨_, List.mem_cons_self .., List.infix_refl _⟩
  taken := by
    rintro ⟨other, hMem⟩
    exact h.taken ⟨other, (List.mem_cons.mp hMem).resolve_left fun hSame => hAll other hSame.symm⟩
  empty := h.empty
  bytes hOutput hErrors := (h.bytes hOutput hErrors).imp_left fun hLater => List.forall_mem_cons.mpr ⟨hErrors, hLater⟩
  targets := by rw [List.map_cons, h.targets, List.filterMap_cons_some hTarget]

/-- A redirection of both writes the errors below the output, and hands on nothing at all. -/
theorem ErrorsRouted.both {rest : List Redirection} {output errors leftOutput leftErrors : Text}
    {written : List Writing} (h : ErrorsRouted rest [] [] written leftOutput leftErrors)
    (target : Text) : ErrorsRouted (.to .all target :: rest) output errors
      (⟨target, Text.below output errors, false⟩ :: written) leftOutput leftErrors where
  outputCarried := Or.inr ⟨_, List.mem_cons_self .., Text.infix_below_left output errors⟩
  errorsCarried := Or.inr ⟨_, List.mem_cons_self .., Text.infix_below_right output errors⟩
  stored _ := ⟨_, List.mem_cons_self .., Text.infix_below_right output errors⟩
  taken _ := h.empty rfl rfl
  empty _ _ := h.empty rfl rfl
  bytes hOutput hErrors := (h.bytes nofun nofun).imp_left fun hLater =>
    List.forall_mem_cons.mpr ⟨hOutput.below hErrors, hLater⟩
  targets := by
    rw [List.map_cons, h.targets]
    rfl

theorem ErrorsRouted.skip {rest : List Redirection} {output errors leftOutput leftErrors : Text}
    {written : List Writing} (h : ErrorsRouted rest output errors written leftOutput leftErrors)
    {r : Redirection} (hTarget : r.errorTarget? = none) :
    ErrorsRouted (r :: rest) output errors written leftOutput leftErrors where
  outputCarried := h.outputCarried
  errorsCarried := h.errorsCarried
  stored hSome := h.stored (by rwa [List.filterMap_cons_none hTarget] at hSome)
  taken := by
    rintro ⟨other, hMem⟩
    rcases List.mem_cons.mp hMem with rfl | hLater
    · cases hTarget
    · exact h.taken ⟨other, hLater⟩
  empty := h.empty
  bytes := h.bytes
  targets := by rw [h.targets, List.filterMap_cons_none hTarget]

/-- The pass over the errors, by induction on the redirections. -/
theorem errorsRouted (redirections : List Redirection) (output errors : Text) :
    ErrorsRouted redirections output errors (errorWritings redirections output errors).1
      (errorWritings redirections output errors).2.1
      (errorWritings redirections output errors).2.2 := by
  induction redirections generalizing output errors with
  | nil =>
      exact ⟨Or.inl (List.infix_refl _), Or.inl (List.infix_refl _), fun hSome => absurd rfl hSome,
        fun ⟨_, hMem⟩ => absurd hMem List.not_mem_nil, fun hOutput hErrors => ⟨hOutput, hErrors⟩,
        fun hOutput hErrors => ⟨nofun, hOutput, hErrors⟩, rfl⟩
  | cons r rest ih =>
      rcases r with ⟨how, target⟩ | _
      · cases how with
        | errors => exact (ih output errors).file false rfl nofun
        | errorsAppend => exact (ih output errors).file true rfl nofun
        | all => exact (ih [] []).both target
        | input | heredoc | output | append => exact (ih output errors).skip rfl
      · exact (ih output errors).skip rfl

theorem targets_outputWritings (output : Text) (targets : List (Text × Bool)) :
    (outputWritings output targets).map Writing.target = targets.map Prod.fst := by
  induction targets with
  | nil => rfl
  | cons target rest ih =>
      cases rest with
      | nil => rfl
      | cons next rest =>
          rw [outputWritings, List.map_cons, ih]
          · rfl
          · exact List.cons_ne_nil _ _

theorem hasBytes_outputWritings {output : Text} (h : output.HasBytes) (targets : List (Text × Bool)) :
    ∀ w ∈ outputWritings output targets, w.content.HasBytes := by
  induction targets with
  | nil => exact nofun
  | cons target rest ih =>
      cases rest with
      | nil => exact List.forall_mem_singleton.mpr h
      | cons next rest =>
          rw [outputWritings]
          · exact List.forall_mem_cons.mpr ⟨nofun, ih⟩
          · exact List.cons_ne_nil _ _

/-- The last file for output gets the text. -/
theorem exists_mem_outputWritings (output : Text) {targets : List (Text × Bool)} (h : targets ≠ []) :
    ∃ w ∈ outputWritings output targets, w.content = output := by
  induction targets with
  | nil => exact absurd rfl h
  | cons target rest ih =>
      cases rest with
      | nil => exact ⟨_, List.mem_singleton_self _, rfl⟩
      | cons next rest =>
          obtain ⟨w, hMem, hContent⟩ := ih (List.cons_ne_nil _ _)
          refine ⟨w, ?_, hContent⟩
          rw [outputWritings]
          · exact List.mem_cons_of_mem _ hMem
          · exact List.cons_ne_nil _ _

/-- What the pass for output does: the last file gets the text, and without a file it is left. -/
theorem carried_outputWritings (output : Text) (targets : List (Text × Bool)) :
    Carried (outputWritings output targets) (if targets.isEmpty then output else []) output := by
  cases hTargets : targets.isEmpty with
  | true => exact Or.inl (List.infix_refl _)
  | false =>
      have hSome : targets ≠ [] := fun hNil => by simp [hNil] at hTargets
      obtain ⟨w, hMem, hContent⟩ := exists_mem_outputWritings output hSome
      exact Or.inr ⟨w, hMem, hContent ▸ List.infix_refl _⟩

/-- The files for errors and those for output are all the files. -/
theorem perm_targets (redirections : List Redirection) :
    (redirections.filterMap errorTarget? ++ (outputTargets redirections).map Prod.fst).Perm
      (redirections.filterMap target?) := by
  induction redirections with
  | nil => exact .refl _
  | cons r rest ih =>
      rcases r with ⟨how, target⟩ | _
      · cases how with
        | errors | errorsAppend | all => exact ih.cons target
        | output | append => exact List.perm_middle.trans (ih.cons target)
        | input | heredoc => exact ih
      · exact ih

theorem outputTargets_ne_nil {redirections : List Redirection} {r : Redirection}
    (hMem : r ∈ redirections) (hTaken : r.takesOutput = true) :
    outputTargets redirections ≠ [] ∨ ∃ target, .to .all target ∈ redirections := by
  rcases r with ⟨how, target⟩ | _
  · cases how with
    | all => exact Or.inr ⟨target, hMem⟩
    | output | append => exact Or.inl (List.ne_nil_of_mem (List.mem_filterMap.mpr ⟨_, hMem, rfl⟩))
    | input | heredoc | errors | errorsAppend => cases hTaken
  · cases hTaken

theorem errorTarget?_of_captures {redirections : List Redirection} {r : Redirection}
    (hMem : r ∈ redirections) (hCaptures : r.capturesErrors = true) :
    redirections.filterMap errorTarget? ≠ [] ∨ .mergeErrors ∈ redirections := by
  rcases r with ⟨how, target⟩ | _
  · cases how with
    | errors | errorsAppend | all =>
        exact Or.inl (List.ne_nil_of_mem (List.mem_filterMap.mpr ⟨_, hMem, rfl⟩))
    | input | heredoc | output | append => cases hCaptures
  · exact Or.inr hMem

/-- The output behind the pass for errors, with the errors below it if they join it. -/
def joined (redirections : List Redirection) (output errors : Text) : Text :=
  if redirections.contains .mergeErrors then Text.below output errors else output

theorem infix_joined (redirections : List Redirection) (output errors : Text) :
    output <:+: joined redirections output errors := by
  rw [joined]
  split
  · exact Text.infix_below_left _ _
  · exact List.infix_refl _

theorem infix_joined_of_merge {redirections : List Redirection} (h : .mergeErrors ∈ redirections)
    (output errors : Text) : errors <:+: joined redirections output errors := by
  rw [joined, if_pos (List.contains_iff_mem.mpr h)]
  exact Text.infix_below_right _ _

theorem hasBytes_joined (redirections : List Redirection) {output errors : Text}
    (hOutput : output.HasBytes) (hErrors : errors.HasBytes) :
    (joined redirections output errors).HasBytes := by
  rw [joined]
  split
  · exact hOutput.below hErrors
  · exact hOutput

/-- What redirections do with the texts, whatever they are: both are carried on when errors are
captured, nothing is left where the output is taken, and every file is written once. -/
structure Routed (redirections : List Redirection) (output errors : Text) (written : List Writing)
    (left : Text) : Prop where
  outputCarried : Carried written left output
  errorsCarried : redirections.any capturesErrors = true → Carried written left errors
  taken : redirections.any takesOutput = true → left = []
  bytes : output.HasBytes → errors.HasBytes → ∀ w ∈ written, w.content.HasBytes
  targets : (written.map Writing.target).Perm (redirections.filterMap target?)

/-- Each pass hands on what it does not write, and the merge puts the errors behind the output. -/
theorem routed (redirections : List Redirection) (output errors : Text) :
    Routed redirections output errors (writings redirections output errors).1
      (writings redirections output errors).2 := by
  have h := errorsRouted redirections output errors
  rw [writings]
  rcases hFirst : errorWritings redirections output errors with ⟨first, leftOutput, leftErrors⟩
  rw [hFirst] at h
  change Routed redirections output errors
    (first ++ outputWritings (joined redirections leftOutput leftErrors) (outputTargets redirections))
    (if (outputTargets redirections).isEmpty then joined redirections leftOutput leftErrors else [])
  have hLast := carried_outputWritings (joined redirections leftOutput leftErrors) (outputTargets redirections)
  refine ⟨h.outputCarried.append (infix_joined _ _ _) hLast, fun hCaptures => ?_, fun hTaken => ?_,
    fun hBytes hErrors => ?_, ?_⟩
  · obtain ⟨r, hMem, hCaptures⟩ := List.any_eq_true.mp hCaptures
    rcases errorTarget?_of_captures hMem hCaptures with hFiles | hMerge
    · obtain ⟨w, hMem, hPart⟩ := h.stored hFiles
      exact Or.inr ⟨w, List.mem_append_left _ hMem, hPart⟩
    · exact h.errorsCarried.append (infix_joined_of_merge hMerge _ _) hLast
  · obtain ⟨r, hMem, hTaken⟩ := List.any_eq_true.mp hTaken
    split
    · rename_i hEmpty
      rcases outputTargets_ne_nil hMem hTaken with hSome | hAll
      · exact absurd (List.isEmpty_iff.mp hEmpty) hSome
      · obtain ⟨rfl, rfl⟩ := h.taken hAll
        rw [joined, Text.below]
        exact ite_self _
    · rfl
  · obtain ⟨hFirst, hLeft, hLeftErrors⟩ := h.bytes hBytes hErrors
    exact List.forall_mem_append.mpr
      ⟨hFirst, hasBytes_outputWritings (hasBytes_joined _ hLeft hLeftErrors) _⟩
  · rw [List.map_append, h.targets, targets_outputWritings]
    exact perm_targets redirections

/-! ## Where it is found -/

theorem run_write (w : Writing) {session : Session} {result : Except Fault InodeId} {v : Volume}
    (h : session.volume.store session.now w.target w.content w.append = (result, v)) :
    (write w).run.run session = (result.map fun _ => ⟨⟩, { session with volume := v }) := by
  rw [write, run_bind, Action.run_changePartly, h]
  cases result <;> rfl

/-- What writing to places does: every text is found at its place, files at other places keep their
content, and other paths name what they named. -/
structure Delivered (v w : Volume) (written : List Writing) : Prop where
  found : ∀ writing ∈ written, ∃ place id content, v.filePlace? writing.target = some place ∧
    (place = .taken id ∨ ¬ v.Holds id) ∧ place.inode? w = some id ∧ w.content? id = some content ∧
    writing.content <:+: content
  holds : ∀ x, v.Holds x → w.Holds x
  others : ∀ x content, v.content? x = some content →
    (∀ writing ∈ written, v.filePlace? writing.target ≠ some (.taken x)) → w.content? x = some content
  places : ∀ path place, v.filePlace? path = some place →
    (∀ writing ∈ written, v.filePlace? writing.target ≠ some place) → w.filePlace? path = some place

theorem Delivered.nil (v : Volume) : Delivered v v [] :=
  ⟨fun _ hMem => absurd hMem List.not_mem_nil, fun _ hx => hx, fun _ _ hContent _ => hContent,
    fun _ _ hPlace _ => hPlace⟩

open Volume (FilePlace Stored) in
/-- Texts that are stored at different places go to different inodes. -/
theorem ne_of_stored {v u w : Volume} {path other : Text} {place first : FilePlace} {id x : InodeId}
    (hv : v.Sound) (hPlace : v.filePlace? path = some place) (hFirst : v.filePlace? other = some first)
    (hApart : first ≠ place) (hOwn : first = .taken x ∨ ¬ v.Holds x) (hHeld : u.Holds x)
    (hStored : Stored u w place id) : x ≠ id := by
  rintro rfl
  obtain rfl : place = .taken x := hStored.own.resolve_right fun hNew => hNew hHeld
  rcases hOwn with rfl | hNew
  · exact hApart rfl
  · exact hNew (hv.holds_lookup (Volume.filePlace?_eq_taken.mp hPlace).1)

open Volume (FilePlace Stored) in
/-- One more text is stored, and the ones before it stay where they are. -/
theorem Delivered.concat {v u w : Volume} {written : List Writing} {writing : Writing}
    {place : FilePlace} {id : InodeId} {whole : Text} (h : Delivered v u written) (hv : v.Sound)
    (hPlace : v.filePlace? writing.target = some place)
    (hApart : ∀ other ∈ written, v.filePlace? other.target ≠ some place)
    (hStored : Stored u w place id) (hWhole : w.content? id = some whole)
    (hPart : writing.content <:+: whole) : Delivered v w (written ++ [writing]) := by
  -- The inode that is written to is the one that the path named, or it is new.
  have hOwn : place = .taken id ∨ ¬ v.Holds id := hStored.own.imp_right fun hNew hHeld => hNew (h.holds id hHeld)
  have hLast : ∀ x, v.Holds x → x = id → place = .taken x := by
    rintro x hx rfl
    exact hOwn.resolve_right fun hNew => hNew hx
  refine ⟨fun other hMem => ?_, fun x hx => hStored.holds x (h.holds x hx), fun x content hContent hNone => ?_,
    fun path other hOther hNone => ?_⟩
  · rcases List.mem_append.mp hMem with hBefore | hNow
    · obtain ⟨first, x, content, hFirst, hFirstOwn, hInode, hContent, hInner⟩ := h.found other hBefore
      have hNe : x ≠ id := ne_of_stored hv hPlace hFirst (fun hSame => hApart other hBefore (hSame ▸ hFirst))
        hFirstOwn (Volume.holds_of_content? hContent) hStored
      refine ⟨first, x, content, hFirst, hFirstOwn, ?_, ?_, hInner⟩
      · cases first with
        | taken other => exact hInode
        | free directory name => exact hStored.child? directory name x hInode
      · rw [hStored.others x (Volume.holds_of_content? hContent) hNe, hContent]
    · rw [List.mem_singleton.mp hNow]
      exact ⟨place, id, whole, hPlace, hOwn, hStored.inode?, hWhole, hPart⟩
  · have hx := Volume.holds_of_content? hContent
    have hBefore := h.others x content hContent fun other hMem => hNone other (by simp [hMem])
    rw [hStored.others x (h.holds x hx) ?_, hBefore]
    intro hSame
    exact hNone writing (by simp) (hLast x hx hSame ▸ hPlace)
  · have hBefore := h.places path other hOther fun earlier hMem => hNone earlier (by simp [hMem])
    refine hStored.places path other hBefore ?_
    rintro rfl
    exact hNone writing (by simp) hPlace

/-- What a place holds that nothing was written to. -/
theorem Delivered.content?_eq {v w : Volume} {written : List Writing} (h : Delivered v w written)
    {path : Text} {place : Volume.FilePlace} (hPlace : v.filePlace? path = some place)
    (hOther : ∀ writing ∈ written, v.filePlace? writing.target ≠ some place) :
    place.content? w = place.content? v := by
  cases place with
  | taken id =>
      obtain ⟨content, hContent⟩ := Option.isSome_iff_exists.mp (Volume.filePlace?_eq_taken.mp hPlace).2
      exact (h.others id content hContent hOther).trans hContent.symm
  | free directory name =>
      have hFree := (Volume.filePlace?_eq_free.mp hPlace).2
      have hStill := (Volume.filePlace?_eq_free.mp (h.places path _ hPlace hOther)).2
      rw [Volume.FilePlace.content?, Volume.FilePlace.content?, Volume.FilePlace.inode?,
        Volume.FilePlace.inode?, hFree, hStill]
      rfl

/-- Whether a text is written without a fault: the file is there already, or the text has bytes. -/
def Writing.Accepted (v : Volume) (w : Writing) : Prop :=
  ∀ place, v.filePlace? w.target = some place → place.Accepts w.content

/-- Nothing that redirections write of texts with bytes is refused. -/
theorem accepted_of_hasBytes (redirections : List Redirection) {output errors : Text}
    (hOutput : output.HasBytes) (hErrors : errors.HasBytes) (v : Volume) :
    ∀ writing ∈ (writings redirections output errors).1, writing.Accepted v := by
  intro writing hMem place _
  cases place with
  | taken id => exact trivial
  | free directory name => exact (routed redirections output errors).bytes hOutput hErrors writing hMem

section Delivery

variable {session : Session} (h : session.volume.Sound)
include h

/-- One more text is written to a place of its own, whether that ends in a fault or not. -/
theorem exists_concat {front : List Writing} {writing : Writing} {u : Volume} (hu : u.Sound)
    (hFront : Delivered session.volume u front) {place : Volume.FilePlace}
    (hPlace : session.volume.filePlace? writing.target = some place)
    (hApart : ∀ other ∈ front, session.volume.filePlace? other.target ≠ some place) :
    ∃ w id, (write writing).run.run { session with volume := u } =
        ((place.answer writing.content id).map fun _ => ⟨⟩, { session with volume := w }) ∧
      w.Sound ∧ Delivered session.volume w (front ++ [writing]) := by
  obtain ⟨w, id, whole, hStore, hStored, hWhole, hPart⟩ :=
    hu.exists_stored session.now (hFront.places _ place hPlace hApart) writing.content writing.append
  exact ⟨w, id, run_write writing hStore, hStored.sound,
    hFront.concat h hPlace hApart hStored hWhole hPart⟩

variable {written : List Writing}
  (hNamed : ∀ writing ∈ written, (session.volume.filePlace? writing.target).isSome = true)
  (hApart : (written.map fun writing => session.volume.filePlace? writing.target).Nodup)
include hNamed hApart

omit h in
/-- The place of a text is not one that an earlier text is written to. -/
theorem exists_place_of_split {front back : List Writing} {writing : Writing}
    (hSplit : written = front ++ writing :: back) :
    ∃ place, session.volume.filePlace? writing.target = some place ∧
      ∀ other ∈ front, session.volume.filePlace? other.target ≠ some place := by
  subst hSplit
  obtain ⟨place, hPlace⟩ := Option.isSome_iff_exists.mp (hNamed writing (by simp))
  refine ⟨place, hPlace, fun other hMem hSame => ?_⟩
  rw [List.map_append, List.map_cons] at hApart
  exact List.disjoint_of_nodup_append hApart (List.mem_map.mpr ⟨other, hMem, rfl⟩)
    (by rw [hSame, hPlace]; exact List.mem_cons_self ..)

/-- Texts are written to different places one after the other, as long as there are bytes for them. -/
theorem exists_delivered {front rest : List Writing} (hSplit : written = front ++ rest)
    (hAccepted : ∀ writing ∈ front, writing.Accepted session.volume) :
    ∃ w, (front.forM write).run.run session = (.ok ⟨⟩, { session with volume := w }) ∧
      w.Sound ∧ Delivered session.volume w front := by
  have hEach : ∀ (done : List Writing) (writing : Writing) (later : List Writing) (s : Session),
      front = done ++ writing :: later →
      (∃ u, s = { session with volume := u } ∧ u.Sound ∧ Delivered session.volume u done) →
      ∃ next, (write writing).run.run s = (.ok ⟨⟩, next) ∧ ∃ w, next = { session with volume := w } ∧
        w.Sound ∧ Delivered session.volume w (done ++ [writing]) := by
    rintro done writing later _ hFront ⟨u, rfl, hu, hDone⟩
    have hWhole : written = done ++ writing :: (later ++ rest) := by simp [hSplit, hFront]
    obtain ⟨place, hPlace, hOther⟩ := exists_place_of_split hNamed hApart hWhole
    obtain ⟨w, id, hRun, hw, hDelivered⟩ := exists_concat h hu hDone hPlace hOther
    have hFits := hAccepted writing (by simp [hFront]) place hPlace
    rw [Volume.FilePlace.answer_of_accepts hFits id] at hRun
    exact ⟨_, hRun, w, rfl, hw, hDelivered⟩
  obtain ⟨_, hRun, w, rfl, hw, hDelivered⟩ :=
    exists_run_forM hEach ⟨session.volume, rfl, h, Delivered.nil session.volume⟩
  exact ⟨w, hRun, hw, hDelivered⟩

/-- Writing ends at the first text that a file is created for and that has no bytes. The file is there
then, and nothing is written behind it. -/
theorem exists_undelivered {front back : List Writing} {writing : Writing}
    (hSplit : written = front ++ writing :: back)
    (hAccepted : ∀ earlier ∈ front, earlier.Accepted session.volume)
    (hRefused : ¬ writing.Accepted session.volume) :
    ∃ fault w, writing.content.measure = .error fault ∧
      (written.forM write).run.run session = (.error fault, { session with volume := w }) ∧
      Delivered session.volume w (front ++ [writing]) ∧
      ∀ later ∈ back, ∀ place, session.volume.filePlace? later.target = some place →
        w.filePlace? later.target = some place ∧ place.content? w = place.content? session.volume := by
  obtain ⟨place, hPlace, hOther⟩ := exists_place_of_split hNamed hApart hSplit
  obtain ⟨u, hFront, hu, hDone⟩ := exists_delivered h hNamed hApart hSplit hAccepted
  obtain ⟨w, id, hRun, _, hDelivered⟩ := exists_concat h hu hDone hPlace hOther
  have hRefuses : ¬ place.Accepts writing.content := by
    intro hFits
    refine hRefused fun other hSame => ?_
    rwa [Option.some.inj (hSame.symm.trans hPlace)]
  obtain ⟨fault, hBytes, hAnswer⟩ := Volume.FilePlace.exists_answer_eq_error hRefuses id
  rw [hAnswer] at hRun
  refine ⟨fault, w, hBytes, hSplit ▸ run_forM_error hFront hRun, hDelivered, fun later hMem last hLast => ?_⟩
  have hApartLast : ∀ other ∈ front ++ [writing], session.volume.filePlace? other.target ≠ some last := by
    subst hSplit
    intro other hOther hSame
    rw [List.append_cons, List.map_append] at hApart
    exact List.disjoint_of_nodup_append hApart (List.mem_map.mpr ⟨other, hOther, rfl⟩)
      (List.mem_map.mpr ⟨later, hMem, hLast.trans hSame.symm⟩)
  exact ⟨hDelivered.places _ last hLast hApartLast, hDelivered.content?_eq hLast hApartLast⟩

end Delivery

/-- The files that redirections write to are there or can be created, and are different ones. -/
structure NamesApart (v : Volume) (redirections : List Redirection) : Prop where
  named : ∀ target ∈ redirections.filterMap target?, (v.filePlace? target).isSome = true
  apart : ((redirections.filterMap target?).map v.filePlace?).Nodup

/-- A text is a part of what is left of the output, or of the file that one of the targets named. -/
def Kept (v w : Volume) (redirections : List Redirection) (left t : Text) : Prop :=
  t <:+: left ∨ ∃ target ∈ redirections.filterMap target?, ∃ place content,
    v.filePlace? target = some place ∧ place.content? w = some content ∧ t <:+: content

/-- What was carried to the writings and then delivered is kept by the volume. -/
theorem Carried.kept {v w : Volume} {redirections : List Redirection} {written : List Writing}
    {left t : Text} (h : Carried written left t) (hDelivered : Delivered v w written)
    (hTargets : (written.map Writing.target).Perm (redirections.filterMap target?)) :
    Kept v w redirections left t := by
  rcases h with hLeft | ⟨writing, hMem, hPart⟩
  · exact Or.inl hLeft
  · obtain ⟨place, id, content, hPlace, _, hInode, hContent, hInner⟩ := hDelivered.found writing hMem
    refine Or.inr ⟨writing.target, hTargets.subset (List.mem_map_of_mem hMem), place, content, hPlace,
      ?_, hPart.trans hInner⟩
    rw [Volume.FilePlace.content?, hInode]
    exact hContent

/-- Redirections to different files that capture errors lose neither the output nor the errors, and
leave nothing of the output where a file takes it, as long as every file that is created gets a text
that has bytes. The first one that does not is left with its text, and nothing is written behind it. -/
theorem send_keeps (redirections : List Redirection) (output : Text) (remarks : List Text)
    {session : Session} (hSound : session.volume.Sound)
    (hCaptures : redirections.any capturesErrors = true)
    (hApart : NamesApart session.volume redirections) :
    let errors := Text.joinLines remarks
    let written := (writings redirections output errors).1
    ((∀ writing ∈ written, writing.Accepted session.volume) →
      ∃ left w, (send redirections output errors).run.run session =
          (.ok left, { session with volume := w }) ∧
        Kept session.volume w redirections left output ∧
        Kept session.volume w redirections left errors ∧
        (redirections.any takesOutput = true → left = [])) ∧
    ∀ front writing back, written = front ++ writing :: back →
      (∀ earlier ∈ front, earlier.Accepted session.volume) → ¬ writing.Accepted session.volume →
      ∃ fault w, writing.content.measure = .error fault ∧
        (send redirections output errors).run.run session = (.error fault, { session with volume := w }) ∧
        Delivered session.volume w (front ++ [writing]) ∧
        ∀ later ∈ back, ∀ place, session.volume.filePlace? later.target = some place →
          w.filePlace? later.target = some place ∧
            place.content? w = place.content? session.volume := by
  intro errors written
  have hRouted := routed redirections output errors
  have hNamed : ∀ writing ∈ written, (session.volume.filePlace? writing.target).isSome = true :=
    fun writing hMem => hApart.named _ (hRouted.targets.subset (List.mem_map_of_mem hMem))
  have hOnce : (written.map fun writing => session.volume.filePlace? writing.target).Nodup := by
    have hPlaces := (hRouted.targets.map session.volume.filePlace?).nodup_iff.mpr hApart.apart
    rwa [List.map_map] at hPlaces
  constructor
  · intro hAccepted
    obtain ⟨w, hRun, _, hDelivered⟩ :=
      exists_delivered hSound hNamed hOnce (List.append_nil written).symm hAccepted
    refine ⟨(writings redirections output errors).2, w, ?_,
      hRouted.outputCarried.kept hDelivered hRouted.targets,
      (hRouted.errorsCarried hCaptures).kept hDelivered hRouted.targets, hRouted.taken⟩
    change (written.forM write >>= fun _ => pure _).run.run session = _
    rw [Action.run_bind_ok hRun]
    rfl
  · intro front writing back hSplit hAccepted hRefused
    obtain ⟨fault, w, hBytes, hRun, hRest⟩ :=
      exists_undelivered hSound hNamed hOnce hSplit hAccepted hRefused
    refine ⟨fault, w, hBytes, ?_, hRest⟩
    change (written.forM write >>= fun _ => pure _).run.run session = _
    rw [Action.run_bind, hRun]

/-- A session in the directory `/d`, next to a file. -/
def besideFile : Session :=
  .start ((Volume.fresh .origin).after [(.origin, .createDirectories "/d"),
    (.origin, .createFile "/a" "x"), (.origin, .changeDirectory "/d")]) .empty .origin

/-- Errors behind what a file holds and into the output, which a new file gets under a path with
slashes too many. -/
theorem send_keeps_merged :
    let redirections : List Redirection :=
      [.to .errorsAppend "../a", .mergeErrors, .to .output "f", .to .append "/d//g/"]
    redirections.any capturesErrors = true ∧ NamesApart besideFile.volume redirections ∧
    ∃ left w, (send redirections "out" (Text.joinLines ["e", "f"])).run.run besideFile =
        (.ok left, { besideFile with volume := w }) ∧
      Kept besideFile.volume w redirections left "out" ∧
      Kept besideFile.volume w redirections left (Text.joinLines ["e", "f"]) ∧
      (redirections.any takesOutput = true → left = []) := by
  intro redirections
  have hCaptures : redirections.any capturesErrors = true := by decide
  have hApart : NamesApart besideFile.volume redirections := ⟨by decide +kernel, by decide +kernel⟩
  have hSound : besideFile.volume.Sound := (Volume.reachable_after ..).sound
  have hOutput : Text.HasBytes "out" := by decide
  have hErrors : Text.HasBytes (Text.joinLines ["e", "f"]) := by decide
  have hAccepted := accepted_of_hasBytes redirections hOutput hErrors besideFile.volume
  exact ⟨hCaptures, hApart, (send_keeps redirections "out" ["e", "f"] hSound hCaptures hApart).1 hAccepted⟩

/-- The errors have no bytes, and the output never comes to its file. -/
theorem exists_lost_output :
    let redirections : List Redirection := [.to .errors "e", .to .output "f"]
    redirections.any capturesErrors = true ∧ NamesApart besideFile.volume redirections ∧
    ∃ later : Session, (send redirections "out" (Text.joinLines [[.surrogate 0]])).run.run besideFile =
        (.error (.unencodable 0 [.surrogate 0]), later) ∧
      later.volume.listing =
        ([("/d", none), ("/d/e", some [.surrogate 0]), ("/a", some "x")] : List (Text × Option Text)) := by
  intro redirections
  exact ⟨by decide, ⟨by decide +kernel, by decide +kernel⟩, _, rfl, by decide +kernel⟩

end Redirection

end TreeShell
